import RemoteCall.Balancer.InFlight
import RemoteCall.Proofs.Balancer.Lasting
import Mathlib.Algebra.Group.Nat.Defs

/-! Counters of picks by least activity, in every order in which picks, callbacks and updates take
effect.

Endpoints that stay keep their counters and new ones begin at zero, so updates leave every count as
it is. A pick adds one to a counter just when its callback is made, and the callback takes it off
just when it runs. -/
namespace RemoteCall
open Selection (Selector Endpoint Picker)

namespace Balancer
variable {b b' b'' : Balancer} {instances : List Instance} {i : Instance}
  {e : Nat} {es found : List Nat}

/-! Updates -/

/-- Endpoints were added that no call was sent to. -/
structure Grows (b b' : Balancer) : Prop where
  mode_eq : b'.selector.mode = b.selector.mode
  filter_eq : b'.selector.filter = b.selector.filter
  endpoints : ∃ more, b'.selector.endpoints = b.selector.endpoints ++ more ∧
    ∀ x ∈ more, x.active = 0

namespace Grows

theorem refl (b : Balancer) : b.Grows b := ⟨rfl, rfl, [], (List.append_nil _).symm, nofun⟩

theorem trans (h : b.Grows b') (h' : b'.Grows b'') : b.Grows b'' := by
  obtain ⟨first, hfirst, hzero⟩ := h.endpoints
  obtain ⟨second, hsecond, hzero'⟩ := h'.endpoints
  refine ⟨h'.mode_eq.trans h.mode_eq, h'.filter_eq.trans h.filter_eq,
    first ++ second, ?_, fun x hx => ?_⟩
  · rw [hsecond, hfirst, List.append_assoc]
  · exact (List.mem_append.mp hx).elim (hzero x) (hzero' x)

theorem addEndpoint {pools : List Pool.State} {x : Endpoint} (hx : x.active = 0) :
    b.Grows (({ b with pools } : Balancer).addEndpoint x).1 := by
  refine ⟨rfl, rfl, [x], rfl, fun y hy => ?_⟩
  rw [List.mem_singleton.mp hy, hx]

/-- Claiming sends no call to an endpoint. -/
theorem claim (h : b.claim i = .ok (b', e)) : b.Grows b' := by
  unfold Balancer.claim at h
  -- the endpoint stays, or there is a new one with its pool or with a pool of its own
  split at h
  · dsimp only at h
    split at h
    · obtain ⟨rfl, -⟩ := Prod.mk.inj (Except.ok.inj h)
      exact refl _
    · obtain ⟨rfl, -⟩ := Prod.mk.inj (Except.ok.inj h)
      exact addEndpoint rfl
  · obtain ⟨pool, -, h⟩ := bind_eq_ok.mp h
    obtain ⟨rfl, -⟩ := Prod.mk.inj (Except.ok.inj h)
    exact addEndpoint rfl

theorem claimAll (h : b.claimAll instances = .ok (b', es)) : b.Grows b' := by
  induction instances generalizing b es with
  | nil =>
    cases h
    exact refl _
  | cons i rest ih =>
    obtain ⟨⟨c, e⟩, hclaim, h⟩ := bind_eq_ok.mp h
    obtain ⟨⟨c', others⟩, hall, h⟩ := bind_eq_ok.mp h
    obtain ⟨rfl, -⟩ := Prod.mk.inj (Except.ok.inj h)
    exact (claim hclaim).trans (ih hall)

/-- An update adds endpoints that no call was sent to, and leaves the others. -/
theorem update (h : b.update instances = .ok b') : b.Grows b' := by
  obtain ⟨after, ready, hall, rfl⟩ := update_eq_ok.mp h
  rw [foldl_closePool]
  exact ⟨(claimAll hall).mode_eq, (claimAll hall).filter_eq, (claimAll hall).endpoints⟩

theorem length_le (h : b.Grows b') :
    b.selector.endpoints.length ≤ b'.selector.endpoints.length := by
  obtain ⟨more, hmore, -⟩ := h.endpoints
  rw [hmore, List.length_append]
  exact Nat.le_add_right _ _

theorem endpoint_eq (h : b.Grows b') (he : e < b.selector.endpoints.length) :
    b'.selector.endpoint e = b.selector.endpoint e := by
  obtain ⟨more, hmore, -⟩ := h.endpoints
  exact endpoint_of_prefix ⟨more, hmore.symm⟩ he

theorem active_eq_zero (h : b.Grows b') (he : b.selector.endpoints.length ≤ e) :
    (b'.selector.endpoint e).active = 0 := by
  obtain ⟨more, hmore, hzero⟩ := h.endpoints
  rw [Selector.endpoint, hmore, List.getElem?_append_right he]
  cases hx : more[e - b.selector.endpoints.length]? with
  | none => rfl
  | some x => exact hzero x (List.mem_of_getElem? hx)

end Grows

/-- A new ready set comes with a picker of the mode. -/
theorem picker_update (h : b.update instances = .ok b') (hmode : b.selector.mode = .leastActive) :
    b'.selector.picker = .leastActive b'.ready := by
  obtain ⟨after, ready, hall, rfl⟩ := update_eq_ok.mp h
  have hmode' : after.selector.mode = .leastActive := (Grows.claimAll hall).mode_eq.trans hmode
  rw [foldl_closePool]
  change Picker.ofReady after.selector.mode _ ready = .leastActive
    (Picker.ofReady after.selector.mode _ ready).ready
  rw [hmode']
  rfl

/-- An update in place of any ready set of endpoints that there are. -/
theorem Intact.updateFrom (h : b.Intact) (hfound : ∀ e ∈ found, e < b.selector.endpoints.length)
    (hu : b.updateFrom found instances = .ok b') : b'.Intact ∧ b.Grows b' := by
  have hi : (b.withSelector { b.selector with picker := .leastActive found }).Intact :=
    ⟨hfound, h.bound, h.balanced⟩
  have hg := Grows.update hu
  exact ⟨(hi.update hu).1, hg.mode_eq, hg.filter_eq, hg.endpoints⟩

theorem updateFrom_ready (h : b.selector.picker = .leastActive b.ready) :
    b.updateFrom b.ready instances = b.update instances := by
  rw [updateFrom, ← h]
  rfl

end Balancer

namespace InFlight
variable {s : InFlight} {call : Selection.Call} {pick : Selection.Pick} {e k : Nat}
  {failed : Bool} {now : Int}
  {d : Done} {x : Action}

/-! Callbacks -/

def Action.ends : Action → Option Nat
  | .call k _ _ | .drop k _ => some k
  | _ => none

theorem runDone_of_pending (hd : s.dones[k]? = some ⟨pick, true⟩) :
    s.runDone k failed now =
      { s with
        balancer := s.balancer.withSelector (s.balancer.selector.finish pick failed now)
        dones := s.dones.set k ⟨pick, false⟩
        ran := s.ran ++ [k] } := by
  rw [runDone, hd]

theorem runDone_of_not_pending (hd : ¬ ∃ pick, s.dones[k]? = some ⟨pick, true⟩) :
    s.runDone k failed now = s := by
  unfold runDone
  split
  · rename_i pick hpick
    exact absurd ⟨pick, hpick⟩ hd
  · rfl

/-- A callback is not pending after it was called or dropped. -/
theorem ended_runDone (hk : k < s.dones.length) :
    ∃ d, (s.runDone k failed now).dones[k]? = some d ∧ d.isPending = false := by
  obtain ⟨⟨pick, pending⟩, hd⟩ : ∃ d, s.dones[k]? = some d := ⟨_, List.getElem?_eq_getElem hk⟩
  cases pending with
  | true =>
    rw [runDone_of_pending hd]
    exact ⟨_, List.getElem?_set_self hk, rfl⟩
  | false =>
    rw [runDone, hd]
    exact ⟨_, hd, rfl⟩

/-- To call a callback leaves nothing to be dropped. -/
theorem step_call (s : InFlight) (k : Nat) (failed : Bool) (now : Int) :
    s.step (.call k failed now) = s.runDone k failed now := by
  refine runDone_of_not_pending ?_
  rintro ⟨pick, hpick⟩
  by_cases hk : k < s.dones.length
  · obtain ⟨d, hd, hended⟩ : ∃ d, (s.runDone k failed now).dones[k]? = some d ∧
      d.isPending = false :=
      ended_runDone hk
    obtain rfl := Option.some.inj (hd.symm.trans hpick)
    cases hended
  · have hnone : s.dones[k]? = none := List.getElem?_eq_none (Nat.le_of_not_lt hk)
    rw [runDone, hnone, hnone] at hpick
    cases hpick

theorem getElem?_runDone_ne {j : Nat} (hjk : j ≠ k) :
    (s.runDone j failed now).dones[k]? = s.dones[k]? := by
  unfold runDone
  split
  · exact List.getElem?_set_ne hjk
  · rfl

/-- Callbacks are made as picks settle, and otherwise they only end. -/
theorem dones_step (hx : x ≠ .settle) (hends : x.ends = none) : (s.step x).dones = s.dones := by
  cases x with
  | settle => exact absurd rfl hx
  | call k failed now => cases hends
  | drop k now => cases hends
  | update found instances =>
    rw [step]
    split
    · rfl
    · rfl
  | start call =>
    rw [step]
    split
    · rfl
    · rfl
  | find | read | look => rfl

/-- Nothing but its end changes a callback. -/
theorem getElem?_step (hd : s.dones[k]? = some d) (hx : x.ends ≠ some k) :
    (s.step x).dones[k]? = some d := by
  cases x with
  | call j failed now =>
    rw [step_call, getElem?_runDone_ne fun hj => hx (congrArg some hj), hd]
  | drop j now => exact (getElem?_runDone_ne fun hj => hx (congrArg some hj)).trans hd
  | settle =>
    rw [step]
    cases s.picking with
    | none => exact hd
    | some p =>
      change (s.settle p).dones[k]? = some d
      unfold settle
      split
      · exact hd
      · exact (List.getElem?_append_left (List.getElem?_eq_some_iff.mp hd).1).trans hd
      · exact hd
  | find | update | start | read | look => rw [dones_step Action.noConfusion rfl, hd]

/-- A callback stays as it is until an action ends it. -/
theorem getElem?_run (hd : s.dones[k]? = some d) {xs : List Action}
    (hxs : ∀ x ∈ xs, x.ends ≠ some k) : (s.run xs).dones[k]? = some d := by
  induction xs generalizing s with
  | nil => exact hd
  | cons x rest ih =>
    exact ih (getElem?_step hd (hxs x List.mem_cons_self)) fun y hy =>
      hxs y (List.mem_cons_of_mem x hy)

/-- Things go on from `s` to `t`, and nobody ends a callback. -/
def LeadsTo (s : InFlight) (k : Nat) (t : InFlight) : Prop :=
  ∃ xs : List Action, (∀ x ∈ xs, x.ends ≠ some k) ∧ s.run xs = t

/-! Picks and their callbacks, counted at each endpoint -/

/-- A pick whose callback is pending is counted. -/
theorem outstanding_pos (hd : s.dones[k]? = some ⟨pick, true⟩) :
    0 < s.outstanding pick.endpoint := by
  refine List.countP_pos_iff.mpr ⟨_, List.mem_of_getElem? hd, ?_⟩
  rw [Bool.true_and]
  exact beq_self_eq_true _

/-- A pick that falls on an endpoint adds one callback there. -/
theorem outstanding_enter (s : InFlight) (e generation x : Nat) :
    (s.enter e generation).outstanding x = s.outstanding x + if e = x then 1 else 0 := by
  change (s.dones ++ [_]).countP _ = _
  rw [List.countP_append, List.countP_singleton]
  simp only [Selection.Pick.endpoint, Bool.true_and, beq_iff_eq]
  rfl

/-- A callback that has run is pending no more. -/
theorem outstanding_runDone (hd : s.dones[k]? = some ⟨pick, true⟩) (x : Nat) :
    (s.runDone k failed now).outstanding x =
      s.outstanding x - if pick.endpoint = x then 1 else 0 := by
  obtain ⟨hlt, hget⟩ := List.getElem?_eq_some_iff.mp hd
  rw [runDone_of_pending hd]
  change (s.dones.set k ⟨pick, false⟩).countP _ = _
  rw [List.countP_set hlt, hget]
  simp only [Bool.true_and, Bool.false_and, beq_iff_eq, Bool.false_eq_true,
    ↓reduceIte, Nat.add_zero]
  rfl

theorem outstanding_runDone_le : (s.runDone k failed now).outstanding e ≤ s.outstanding e := by
  by_cases hpending : ∃ pick, s.dones[k]? = some ⟨pick, true⟩
  · obtain ⟨pick, hd⟩ := hpending
    rw [outstanding_runDone hd]
    exact Nat.sub_le _ _
  · rw [runDone_of_not_pending hpending]

/-- Only a pick that settles adds to a count. -/
theorem outstanding_step_le (hx : x ≠ .settle) : (s.step x).outstanding e ≤ s.outstanding e := by
  cases x with
  | settle => exact absurd rfl hx
  | call k failed now => exact outstanding_runDone_le.trans outstanding_runDone_le
  | drop k now => exact outstanding_runDone_le
  | find | update | start | read | look =>
    exact Nat.le_of_eq (congrArg (List.countP _) (dones_step Action.noConfusion rfl))

/-- There are fewer than 2³² calls at each endpoint. -/
def Bounded (s : InFlight) : Prop := ∀ e, s.outstanding e < 2 ^ 32

theorem Bounded.step (h : s.Bounded) (hx : x ≠ .settle) : (s.step x).Bounded :=
  fun e => Nat.lt_of_le_of_lt (outstanding_step_le hx) (h e)

theorem bounded_of_length (h : s.dones.length < 2 ^ 32) : s.Bounded :=
  fun _ => Nat.lt_of_le_of_lt List.countP_le_length h

def Has (s : InFlight) (e : Nat) : Prop := e < s.balancer.selector.endpoints.length

theorem has_modify {f : Endpoint → Endpoint} {x : Nat} : (s.modify e f).Has x ↔ s.Has x := by
  rw [Has, Has, modify]
  change x < (s.balancer.selector.endpoints.modify e f).length ↔ _
  rw [List.length_modify]

theorem active_modify {f : Endpoint → Endpoint} (he : s.Has e) (x : Nat) :
    (s.modify e f).active x =
      if e = x then (f (s.balancer.selector.endpoint e)).active else s.active x := by
  change ((s.balancer.selector.modify e f).endpoint x).active = _
  split
  · rename_i hex
    rw [← hex, Selector.endpoint_modify_self he]
  · rename_i hex
    rw [Selector.endpoint_modify_ne hex]
    rfl

/-! Accounts -/

/-- Each counter is the number of picks whose callbacks are pending, as far as 32 bits can tell, and
each callback that is not pending has run once. -/
structure Accounted (s : InFlight) : Prop where
  mode_eq : s.balancer.selector.mode = .leastActive
  picker_eq : s.balancer.selector.picker = .leastActive s.balancer.ready
  intact : s.balancer.Intact
  found : ∀ ready ∈ s.found, ∀ e ∈ ready, s.Has e
  picking : ∀ p, s.picking = some p → (∀ e ∈ p.left, s.Has e) ∧ ∀ e ∈ p.best, s.Has e
  dones : ∀ d ∈ s.dones, d.pick.choice.notice = .active d.pick.endpoint ∧ s.Has d.pick.endpoint
  active_eq : ∀ e, (s.active e).toNat = s.outstanding e % 2 ^ 32
  ran_eq : ∀ k, s.ran.count k = (s.dones[k]?.any fun d => !d.isPending).toNat

/-- In the beginning no counter has counted and no callback is pending. -/
theorem accounted_new (filter : Option Selection.Filter) (config : PoolConfig) :
    (new filter config).Accounted where
  mode_eq := rfl
  picker_eq := rfl
  intact := Balancer.intact_ofMode _ _ _
  found := nofun
  picking := nofun
  dones := nofun
  active_eq _ := rfl
  ran_eq _ := rfl

namespace Accounted

theorem outstanding_eq_zero (h : s.Accounted) (he : ¬ s.Has e) : s.outstanding e = 0 := by
  refine List.countP_eq_zero.mpr fun d hd hp => he ?_
  obtain ⟨-, hde⟩ := Bool.and_eq_true_iff.mp hp
  exact eq_of_beq hde ▸ (h.dones d hd).2

/-- A pick that finds a ready set, reads or looks counts nowhere. -/
theorem withPicking (h : s.Accounted) {picking : Option Picking}
    (hp : ∀ p, picking = some p → (∀ e ∈ p.left, s.Has e) ∧ ∀ e ∈ p.best, s.Has e) :
    ({ s with picking } : InFlight).Accounted :=
  ⟨h.mode_eq, h.picker_eq, h.intact, h.found, hp, h.dones, h.active_eq, h.ran_eq⟩

theorem find (h : s.Accounted) : (s.step .find).Accounted := by
  refine ⟨h.mode_eq, h.picker_eq, h.intact, fun ready hready => ?_, h.picking,
    h.dones, h.active_eq, h.ran_eq⟩
  rcases List.mem_append.mp hready with hready | hready
  · exact h.found ready hready
  · exact List.mem_singleton.mp hready ▸ h.intact.known

theorem start (h : s.Accounted) : (s.step (.start call)).Accounted := by
  rw [step]
  split
  · refine h.withPicking fun p hp => ?_
    cases hp
    exact ⟨fun e he => h.intact.known e (List.mem_filter.mp he).1, nofun⟩
  · exact h

theorem read (h : s.Accounted) : (s.step .read).Accounted := by
  refine h.withPicking fun p hp => ?_
  obtain ⟨q, hq, rfl⟩ := Option.map_eq_some_iff.mp hp
  exact h.picking q hq

theorem look (h : s.Accounted) : (s.step .look).Accounted := by
  refine h.withPicking fun p hp => ?_
  obtain ⟨q, hq, rfl⟩ := Option.map_eq_some_iff.mp hp
  obtain ⟨hleft, hbest⟩ := h.picking q hq
  unfold Picking.look
  split
  · rename_i e rest hl hb
    rw [hl] at hleft
    refine ⟨fun x hx => hleft x (List.mem_cons_of_mem e hx), fun x hx => ?_⟩
    obtain rfl := Option.mem_some_iff.mp hx
    exact hleft e List.mem_cons_self
  · rename_i e rest b least hl hb hv
    rw [hl] at hleft
    refine ⟨fun x hx => hleft x (List.mem_cons_of_mem e hx), fun x hx => ?_⟩
    obtain rfl := Option.mem_some_iff.mp hx
    split
    · exact hbest b hb
    · exact hleft e List.mem_cons_self
  · exact ⟨hleft, hbest⟩

/-- An update leaves every counter alone, and the new ones start at zero. -/
theorem update (h : s.Accounted) {found : Nat} {instances : List Instance} :
    (s.step (.update found instances)).Accounted := by
  rw [step]
  split
  · rename_i ready hready
    cases hu : s.balancer.updateFrom ready instances with
    | error e => exact h
    | ok b' =>
      obtain ⟨hi, hg⟩ := h.intact.updateFrom (h.found ready (List.mem_of_getElem? hready)) hu
      have hhas (e : Nat) (he : s.Has e) : ({ s with balancer := b' } : InFlight).Has e :=
        Nat.lt_of_lt_of_le he hg.length_le
      refine ⟨hg.mode_eq.trans h.mode_eq, Balancer.picker_update hu h.mode_eq, hi,
        fun ready hr e he => hhas e (h.found ready hr e he), fun p hp => ?_,
        fun d hd => ⟨(h.dones d hd).1, hhas _ (h.dones d hd).2⟩, fun e => ?_, h.ran_eq⟩
      · obtain ⟨hleft, hbest⟩ := h.picking p hp
        exact ⟨fun e he => hhas e (hleft e he), fun e he => hhas e (hbest e he)⟩
      · change (b'.selector.endpoint e).active.toNat = s.outstanding e % 2 ^ 32
        by_cases he : s.Has e
        · rw [hg.endpoint_eq he]
          exact h.active_eq e
        · -- nobody has picked an endpoint that was not there
          rw [hg.active_eq_zero (Nat.le_of_not_lt he), h.outstanding_eq_zero he]
          rfl
  · exact h

theorem intact_modify (h : s.Accounted) {f : Endpoint → Endpoint} (hf : Selection.Counts f) :
    (s.modify e f).balancer.Intact := by
  have hsame : s.balancer.selector.Same (s.balancer.selector.modify e f) := Selector.same_modify hf
  have hcarries : s.balancer.Carries (s.modify e f).balancer := Balancer.carries_of_pools hsame rfl
  exact hcarries.intact h.intact

/-- The pick is counted as its callback is made. -/
theorem enter (h : s.Accounted) (he : s.Has e) (generation : Nat) :
    (s.enter e generation).Accounted where
  mode_eq := h.mode_eq
  picker_eq := h.picker_eq
  intact := h.intact_modify fun _ => ⟨rfl, rfl⟩
  found ready hready x hx := has_modify.mpr (h.found ready hready x hx)
  picking := nofun
  dones d hd := by
    rcases List.mem_append.mp hd with hd | hd
    · exact ⟨(h.dones d hd).1, has_modify.mpr (h.dones d hd).2⟩
    · rw [List.mem_singleton.mp hd]
      exact ⟨rfl, has_modify.mpr he⟩
  active_eq x := by
    have hx := h.active_eq x
    have hone : (1 : UInt32).toNat = 1 := rfl
    change ((s.modify e Endpoint.enter).active x).toNat = _
    rw [active_modify he, outstanding_enter]
    split
    · rename_i hex
      subst hex
      change (s.active e + 1).toNat = _
      -- one more, and both sides wrap at the same time
      rw [UInt32.toNat_add, hx, hone]
      omega
    · exact hx
  ran_eq j := by
    have hj := h.ran_eq j
    change s.ran.count j = ((s.dones ++ [_])[j]?.any _).toNat
    rw [hj]
    by_cases hlt : j < s.dones.length
    · rw [List.getElem?_append_left hlt]
    · -- the new callback has not run, like those that are not there yet
      rw [List.getElem?_append_right (Nat.le_of_not_lt hlt),
        List.getElem?_eq_none (Nat.le_of_not_lt hlt)]
      cases j - s.dones.length with
      | zero => rfl
      | succ n => rfl

/-- Where a pick settles, the counter grows by the callback that comes with it. -/
theorem settle (h : s.Accounted) : (s.step .settle).Accounted := by
  rw [step]
  cases hp : s.picking with
  | none => exact h
  | some p =>
    obtain ⟨-, hbest⟩ := h.picking p hp
    change (s.settle p).Accounted
    unfold InFlight.settle
    split
    · exact h.withPicking nofun
    · rename_i e hl hb
      exact h.enter (hbest e hb) p.generation
    · exact h

/-- The callback takes its pick off as it runs. -/
theorem leave (h : s.Accounted) (hd : s.dones[k]? = some ⟨pick, true⟩) :
    (s.runDone k failed now).Accounted := by
  obtain ⟨hnotice, hhas⟩ := h.dones _ (List.mem_of_getElem? hd)
  have hfinish : s.balancer.selector.finish pick failed now =
      s.balancer.selector.modify pick.endpoint Endpoint.leave := by
    unfold Selector.finish
    rw [hnotice]
  have hout (x : Nat) : (s.runDone k failed now).outstanding x = _ := outstanding_runDone hd x
  rw [runDone_of_pending hd, hfinish] at hout ⊢
  refine ⟨h.mode_eq, h.picker_eq, h.intact_modify fun _ => ⟨rfl, rfl⟩,
    fun ready hready x hx => has_modify.mpr (h.found ready hready x hx),
    fun p hp => ?_, fun d' hd' => ?_, fun x => ?_, fun j => ?_⟩
  · obtain ⟨hleft, hbest⟩ := h.picking p hp
    exact ⟨fun x hx => has_modify.mpr (hleft x hx), fun x hx => has_modify.mpr (hbest x hx)⟩
  · rcases List.mem_or_eq_of_mem_set hd' with hd' | rfl
    · exact ⟨(h.dones d' hd').1, has_modify.mpr (h.dones d' hd').2⟩
    · exact ⟨hnotice, has_modify.mpr hhas⟩
  · have hx := h.active_eq x
    -- the pick is among those that were counted, so that one can be taken off
    have hpos := outstanding_pos hd
    have hone : (1 : UInt32).toNat = 1 := rfl
    rw [hout]
    change ((s.modify pick.endpoint Endpoint.leave).active x).toNat = _
    rw [active_modify hhas]
    split
    · rename_i hex
      subst hex
      change (s.active pick.endpoint - 1).toNat = _
      rw [UInt32.toNat_sub, hx, hone]
      dsimp only
      omega
    · exact hx
  · have hj := h.ran_eq j
    obtain ⟨hlt, -⟩ := List.getElem?_eq_some_iff.mp hd
    change (s.ran ++ [k]).count j = ((s.dones.set k _)[j]?.any _).toNat
    rw [List.count_append, List.count_singleton, hj]
    by_cases hkj : k = j
    · subst hkj
      rw [List.getElem?_set_self hlt, hd]
      simp
    · rw [List.getElem?_set_ne hkj]
      simp [hkj]

/-- Where a callback runs, the counter shrinks by it. -/
theorem runDone (h : s.Accounted) : (s.runDone k failed now).Accounted := by
  by_cases hpending : ∃ pick, s.dones[k]? = some ⟨pick, true⟩
  · obtain ⟨pick, hd⟩ := hpending
    exact h.leave hd
  · rw [runDone_of_not_pending hpending]
    exact h

/-- Every action keeps the account, whatever came before it. -/
theorem step (h : s.Accounted) (x : Action) : (s.step x).Accounted := by
  cases x with
  | find => exact h.find
  | update found instances => exact h.update
  | start call => exact h.start
  | read => exact h.read
  | look => exact h.look
  | settle => exact h.settle
  | call k failed now => exact h.runDone.runDone
  | drop k now => exact h.runDone

theorem run (h : s.Accounted) (actions : List Action) : (s.run actions).Accounted := by
  induction actions generalizing s with
  | nil => exact h
  | cons x rest ih => exact ih (h.step x)

/-- An update that nothing interrupts is one of the balancer. -/
theorem run_update (h : s.Accounted) (instances : List Instance) :
    s.run [.find, .update s.found.length instances] =
      { s with
        balancer := s.balancer.step (.update instances)
        found := s.found ++ [s.balancer.ready] } := by
  have hfound : (s.found ++ [s.balancer.ready])[s.found.length]? = some s.balancer.ready :=
    List.getElem?_concat_length
  change InFlight.step { s with found := s.found ++ [s.balancer.ready] }
    (.update s.found.length instances) = _
  simp only [InFlight.step, hfound]
  rw [Balancer.updateFrom_ready h.picker_eq]
  rfl

end Accounted

/-- Below 2³² pending callbacks the counter is their number. -/
theorem Accounted.active_eq_outstanding (h : s.Accounted) (he : s.outstanding e < 2 ^ 32) :
    (s.active e).toNat = s.outstanding e :=
  (h.active_eq e).trans (Nat.mod_eq_of_lt he)

/-- No action raises a counter but the settling of a pick. -/
theorem Accounted.active_step_le (h : s.Accounted) (hb : s.Bounded) (hx : x ≠ .settle) :
    (s.step x).active e ≤ s.active e := by
  rw [UInt32.le_iff_toNat_le, h.active_eq_outstanding (hb e),
    (h.step x).active_eq_outstanding (hb.step hx e)]
  exact outstanding_step_le hx

/-! Exact counts -/

/-- The counters tell how many picks have their callbacks pending, and each callback runs once. -/
structure Exact (s : InFlight) : Prop where
  active_eq : ∀ e, (s.active e).toNat = s.outstanding e
  active_eq_zero : (∀ d ∈ s.dones, d.isPending = false) → ∀ e, s.active e = 0
  /-- A callback that runs takes one off, where there is one to take. -/
  active_runDone : ∀ (k : Nat) (d : Done) (failed : Bool) (now : Int),
    s.dones[k]? = some d → d.isPending = true →
    ((s.runDone k failed now).active d.pick.endpoint).toNat + 1 = (s.active d.pick.endpoint).toNat
  count_ran : ∀ (k : Nat) (d : Done), s.dones[k]? = some d →
    s.ran.count k = if d.isPending then 0 else 1
  ran_lt : ∀ k ∈ s.ran, k < s.dones.length
  /-- Whether it is called or dropped, and whether or not it was before. -/
  count_ended : ∀ (k : Nat) (failed : Bool) (now : Int), k < s.dones.length →
    (s.step (.call k failed now)).ran.count k = 1 ∧ (s.step (.drop k now)).ran.count k = 1

namespace Accounted

/-- A callback has run once, unless it is still pending. -/
theorem count_ran (h : s.Accounted) (hd : s.dones[k]? = some d) :
    s.ran.count k = if d.isPending then 0 else 1 := by
  rw [h.ran_eq, hd, Option.any_some]
  cases d.isPending with
  | true => rfl
  | false => rfl

theorem count_runDone (h : s.Accounted) (hk : k < s.dones.length) :
    (s.runDone k failed now).ran.count k = 1 := by
  obtain ⟨d, hd, hended⟩ : ∃ d, (s.runDone k failed now).dones[k]? = some d ∧ d.isPending = false :=
    ended_runDone hk
  rw [h.runDone.count_ran hd, hended]
  rfl

/-- With fewer than 2³² calls at each endpoint, the account is exact. -/
theorem exact (h : s.Accounted) (hb : s.Bounded) : s.Exact where
  active_eq e := h.active_eq_outstanding (hb e)
  active_eq_zero hended e := by
    have hzero : s.outstanding e = 0 := List.countP_eq_zero.mpr fun d hd => by simp [hended d hd]
    have hactive := h.active_eq_outstanding (hb e)
    rw [hzero] at hactive
    exact UInt32.toNat_inj.mp hactive
  active_runDone k d failed now hd hpending := by
    obtain ⟨pick, pending⟩ := d
    obtain rfl : pending = true := hpending
    have hlt := hb pick.endpoint
    have hpos := outstanding_pos hd
    have hrun : (s.runDone k failed now).outstanding pick.endpoint = s.outstanding
        pick.endpoint - 1 := by
      rw [outstanding_runDone hd, if_pos rfl]
    have hlt' : (s.runDone k failed now).outstanding pick.endpoint < 2 ^ 32 :=
      Nat.lt_of_le_of_lt outstanding_runDone_le hlt
    rw [h.active_eq_outstanding hlt, h.runDone.active_eq_outstanding hlt', hrun]
    exact Nat.sub_add_cancel hpos
  count_ran k d hd := h.count_ran hd
  ran_lt k hk := by
    -- what is not there has run no times
    by_contra hle
    have hcount := h.ran_eq k
    rw [List.getElem?_eq_none (Nat.le_of_not_lt hle)] at hcount
    exact List.count_eq_zero.mp hcount hk
  count_ended k failed now hk := ⟨step_call s k failed now ▸ h.count_runDone hk, h.count_runDone hk⟩

end Accounted

end InFlight
end RemoteCall
