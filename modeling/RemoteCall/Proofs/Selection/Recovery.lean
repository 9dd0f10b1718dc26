import RemoteCall.Proofs.Selection.Action

/-! Traffic after failures.

While a node is not chosen its effective weight stays and its balance grows by it turn after turn.
Balances are bounded in every state, so whoever has an effective weight left is chosen again, and
with each call that succeeds gains one until it has all of its weight. Whoever has none left gains
nothing and may wait for ever. -/
namespace RemoteCall.Selection
variable {s : Selector} {weight : Nat → UInt32} {ready : List Nat} {nodes after : List Node}
  {n : Node} {i j d : Nat}
  {admitted : Nat → Bool} {calls : List Errand}

namespace Selector

/-- The selector rotates over the nodes of the ready endpoints. -/
structure Rotating (s : Selector) (weight : Nat → UInt32) (ready : List Nat) (nodes : List Node) :
    Prop where
  picker_eq : s.picker = .weightedRoundRobin nodes
  configured : Rotation.Configured weight ready nodes
  level : Rotation.Level Rotation.maxGain nodes.length (Rotation.balanceAt nodes)

theorem rotating_rebuild (h : s.mode = .weightedRoundRobin) (ready : List Nat) :
    (s.rebuild ready).Rotating s.weightOf ready (Rotation.fresh s.weightOf ready) where
  picker_eq := picker_rebuild h ready
  configured := Rotation.configured_fresh s.weightOf ready
  level := Rotation.level_fresh s.weightOf ready

theorem Rotating.turn (h : s.Rotating weight ready nodes) {admits : Nat → Bool}
    (hturn : Rotation.turn admits nodes = some (j, after)) :
    ({ s with picker := .weightedRoundRobin after } : Selector).Rotating weight ready after :=
  ⟨rfl, h.configured.turn hturn, h.level.turn hturn⟩

theorem Rotating.settle (h : s.Rotating weight ready nodes) (i : Nat) (failed : Bool) :
    ({ s with picker := .weightedRoundRobin (nodes.modify i (Rotation.settle failed)) } :
      Selector).Rotating
      weight ready (nodes.modify i (Rotation.settle failed)) where
  picker_eq := rfl
  configured := h.configured.settle i failed
  level := by
    have hbalance : Rotation.balanceAt (nodes.modify i (Rotation.settle failed)) =
        Rotation.balanceAt nodes :=
      funext fun _ => Rotation.balanceAt_settle failed i
    rw [List.length_modify, hbalance]
    exact h.level

/-- Whatever is done, the selector rotates over the same nodes. -/
theorem Rotating.step (h : s.Rotating weight ready nodes) (a : Action) :
    ∃ after, (s.step a).Rotating weight ready after := by
  cases a with
  | pick call now draw =>
    have hpick := pick_weightedRoundRobin h.picker_eq call now draw
    cases hturn : Rotation.turn (s.admits call) nodes with
    | none =>
      rw [hturn] at hpick
      rw [step_of_error hpick]
      exact ⟨nodes, h⟩
    | some x =>
      rw [hturn] at hpick
      rw [step_of_ok hpick]
      exact ⟨x.2, h.turn hturn⟩
  | finish pick failed now =>
    obtain ⟨after, hafter, rfl | ⟨i, rfl⟩⟩ := picker_finish h.picker_eq pick failed now
    · exact ⟨after, hafter, h.configured, h.level⟩
    · have hsettle := h.settle i failed
      exact ⟨_, hafter, hsettle.configured, hsettle.level⟩

theorem Rotating.run (h : s.Rotating weight ready nodes) (actions : List Action) :
    ∃ after, (s.run actions).Rotating weight ready after := by
  induction actions generalizing s nodes with
  | nil => exact ⟨nodes, h⟩
  | cons a rest ih =>
    obtain ⟨after, hafter⟩ := h.step a
    exact ih hafter

end Selector

/-! Calls that succeed -/

namespace Rotation
variable {m k : Node} {picked picked' turns turns' : Nat}

/-- What becomes of an admitted node over some turns: each call that is sent to it and succeeds
raises its effective weight by one, up to the weight, and if none is sent to it its balance grows by
all that it gained. -/
structure Recovers (n m : Node) (picked turns : Nat) : Prop where
  endpoint_eq : m.endpoint = n.endpoint
  weight_eq : m.weight = n.weight
  effective_le : n.effective ≤ n.weight
  effective_eq : m.effective.toNat = min n.weight.toNat (n.effective.toNat + picked)
  balance_eq : picked = 0 → m.balance = n.balance + turns * gain n

theorem Recovers.refl (h : n.effective ≤ n.weight) : Recovers n n 0 0 where
  endpoint_eq := rfl
  weight_eq := rfl
  effective_le := h
  effective_eq := (min_eq_right (UInt32.le_iff_toNat_le.mp h)).symm
  balance_eq _ := by simp

/-- What becomes of a node over turns and then over more of them adds up. -/
theorem Recovers.trans (h : Recovers n m picked turns) (h' : Recovers m k picked' turns') :
    Recovers n k (picked + picked') (turns + turns') where
  endpoint_eq := h'.endpoint_eq.trans h.endpoint_eq
  weight_eq := h'.weight_eq.trans h.weight_eq
  effective_le := h.effective_le
  effective_eq := by
    rw [h'.effective_eq, h.effective_eq, h.weight_eq]
    omega
  balance_eq hzero := by
    obtain ⟨rfl, rfl⟩ := Nat.add_eq_zero_iff.mp hzero
    have hgain : gain m = gain n := by
      have hle := UInt32.le_iff_toNat_le.mp h.effective_le
      unfold gain
      rw [h.effective_eq, Nat.add_zero, min_eq_right hle]
    rw [h'.balance_eq rfl, h.balance_eq rfl, hgain, Nat.cast_add, add_mul, add_assoc]

theorem Recovers.effective_pos (h : Recovers n m picked turns) (hpos : 0 < n.effective) :
    0 < m.effective := by
  have hnat := UInt32.lt_iff_toNat_lt.mp hpos
  have hle := UInt32.le_iff_toNat_le.mp h.effective_le
  rw [UInt32.lt_iff_toNat_lt, h.effective_eq]
  omega

/-- A turn and the success of the call that is sent to its leader. -/
theorem recovers_turn {admits : Nat → Bool} (hturn : turn admits nodes = some (j, after))
    (hi : nodes[i]? = some n) (ha : admits n.endpoint = true) (hle : n.effective ≤ n.weight) :
    ∃ m, (after.modify j (settle false))[i]? = some m ∧
      Recovers n m (if j = i then 1 else 0) 1 := by
  obtain ⟨-, -, -, -, rfl⟩ := turn_eq_some hturn
  have hnat := UInt32.le_iff_toNat_le.mp hle
  rw [List.getElem?_modify, List.getElem?_mapIdx, hi]
  by_cases hij : j = i
  · rw [if_pos hij]
    refine ⟨settle false { n with balance := n.balance + share admits n - total admits nodes },
      by simp [hij], endpoint_settle _ _, weight_settle _ _, hle, ?_, nofun⟩
    rw [toNat_effective_settle, if_neg Bool.false_ne_true]
    by_cases hlt : n.effective < n.weight
    · rw [if_pos hlt]
      exact (min_eq_right (UInt32.lt_iff_toNat_lt.mp hlt)).symm
    · have hge := UInt32.le_iff_toNat_le.mp (UInt32.not_lt.mp hlt)
      rw [if_neg hlt, min_eq_left (hge.trans (Nat.le_add_right _ _))]
      exact hnat.antisymm hge
  · rw [if_neg hij]
    refine ⟨{ n with balance := n.balance + share admits n }, by simp [hij, Ne.symm hij],
      rfl, rfl, hle, (min_eq_right hnat).symm, fun _ => ?_⟩
    rw [share, if_pos ha, Nat.cast_one, one_mul]

end Rotation

namespace Selector

def timesPicked (c : Choice) (results : List (Result Pick)) : Nat :=
  results.countP fun r => r.toOption.any (·.choice == c)

theorem serve_append (s : Selector) (first rest : List Errand) :
    s.serve (first ++ rest) =
      (((s.serve first).1.serve rest).1, (s.serve first).2 ++
        ((s.serve first).1.serve rest).2) := by
  induction first generalizing s with
  | nil => rfl
  | cons c first ih =>
    rw [List.cons_append, serve, serve]
    cases s.pick c.call c.picked c.draw with
    | error e => simp only [ih, List.cons_append]
    | ok x => simp only [ih, List.cons_append]

theorem kept_serve (s : Selector) (calls : List Errand) : s.Kept (s.serve calls).1 := by
  induction calls generalizing s with
  | nil => exact .refl s
  | cons c rest ih =>
    rw [serve]
    cases h : s.pick c.call c.picked c.draw with
    | error e => exact ih s
    | ok x => exact ((kept_pick h).trans (kept_finish x.1 x.2 false c.ended)).trans (ih _)

/-- A call that is sent to the leader of the next turn and succeeds. -/
theorem serve_cons (hp : s.picker = .weightedRoundRobin nodes) {c : Errand}
    (hturn : Rotation.turn (s.admits c.call) nodes = some (j, after)) (hn : nodes[j]? = some n)
    (rest : List Errand) :
    let s' : Selector :=
      { s with picker := .weightedRoundRobin (after.modify j (Rotation.settle false)) }
    s.serve (c :: rest) =
      ((s'.serve rest).1, .ok ⟨⟨n.endpoint, .weight j⟩, s.generation⟩ :: (s'.serve rest).2) := by
  have hpick := pick_weightedRoundRobin hp c.call c.picked c.draw
  rw [hturn] at hpick
  simp only [hn, Option.map_some, Option.getD_some] at hpick
  have hfinish : ({ s with picker := .weightedRoundRobin after } : Selector).finish
      ⟨⟨n.endpoint, .weight j⟩, s.generation⟩ false c.ended =
        { s with picker := .weightedRoundRobin (after.modify j (Rotation.settle false)) } := by
    simp only [finish, beq_self_eq_true, ↓reduceIte]
  rw [serve, hpick]
  dsimp only
  rw [hfinish]

theorem timesPicked_cons (c : Choice) (p : Pick) (results : List (Result Pick)) :
    timesPicked c (.ok p :: results) = timesPicked c results + if p.choice = c then 1 else 0 := by
  unfold timesPicked
  rw [List.countP_cons]
  simp [Except.toOption]

theorem timesPicked_append (c : Choice) (first rest : List (Result Pick)) :
    timesPicked c (first ++ rest) = timesPicked c first + timesPicked c rest := List.countP_append

/-- What calls that succeed one after the other come to for an admitted node. -/
theorem Rotating.serve (h : s.Rotating weight ready nodes)
    (hcalls : ∀ c ∈ calls, ∀ e ∈ ready, s.admits c.call e = admitted e)
    (hi : nodes[i]? = some n) (ha : admitted n.endpoint = true) :
    ∃ after m, (s.serve calls).1.Rotating weight ready after ∧ after[i]? = some m ∧
      Rotation.Recovers n m (timesPicked ⟨n.endpoint, .weight i⟩ (s.serve calls).2)
        calls.length := by
  induction calls generalizing s nodes n with
  | nil => exact ⟨nodes, n, h, hi, .refl (h.configured.mem (List.mem_of_getElem? hi)).2.2⟩
  | cons c rest ih =>
    obtain ⟨hready, -, hle⟩ := h.configured.mem (List.mem_of_getElem? hi)
    have hadmits : s.admits c.call n.endpoint = true :=
      (hcalls c List.mem_cons_self _ hready).trans ha
    cases hturn : Rotation.turn (s.admits c.call) nodes with
    | none =>
      have hnone := Rotation.turn_eq_none_iff.mp hturn n (List.mem_of_getElem? hi)
      rw [hadmits] at hnone
      cases hnone
    | some x =>
      obtain ⟨j, after⟩ := x
      obtain ⟨leader, hj, -, -, -⟩ := Rotation.turn_eq_some hturn
      have hserve := serve_cons h.picker_eq hturn hj rest
      have hs' := (h.turn hturn).settle j false
      obtain ⟨m, hm, hnow⟩ := Rotation.recovers_turn hturn hi hadmits hle
      -- the picker aside nothing moved, so the same endpoints are admitted to the calls that follow
      have hrest := fun c hc => hcalls c (List.mem_cons_of_mem _ hc)
      obtain ⟨last, k, hlast, hk, hlater⟩ := ih hs' hrest hm (by rwa [hnow.endpoint_eq])
      have hpicked : (⟨leader.endpoint, .weight j⟩ : Choice) = ⟨n.endpoint, .weight i⟩ ↔ j = i := by
        refine ⟨fun h => Notice.weight.inj (Choice.mk.inj h).2, ?_⟩
        rintro rfl
        rw [Option.some.inj (hj.symm.trans hi)]
      rw [hnow.endpoint_eq] at hlater
      simp only [hserve, timesPicked_cons, hpicked, List.length_cons, Nat.add_comm _ 1,
        Nat.add_comm _ (if j = i then 1 else 0)]
      exact ⟨last, k, hlast, hk, hnow.trans hlater⟩

/-- Whoever gains something does not wait longer than balances can differ. -/
theorem Rotating.picked (h : s.Rotating weight ready nodes)
    (hcalls : ∀ c ∈ calls, ∀ e ∈ ready, s.admits c.call e = admitted e)
    (hi : nodes[i]? = some n) (ha : admitted n.endpoint = true) (hpos : 0 < n.effective)
    (hlong : 2 ^ 33 * ready.length ≤ calls.length) :
    0 < timesPicked ⟨n.endpoint, .weight i⟩ (s.serve calls).2 := by
  obtain ⟨after, m, hafter, hm, hrecovers⟩ := h.serve hcalls hi ha
  by_contra hnever
  have hgrown := hrecovers.balance_eq (Nat.eq_zero_of_not_pos hnever)
  have hlt := (List.getElem?_eq_some_iff.mp hi).1
  have hge := h.level.ge hlt
  have hle := hafter.level.le (List.getElem?_eq_some_iff.mp hm).1
  rw [Rotation.balanceAt_eq hi, h.configured.length_eq] at hge
  rw [Rotation.balanceAt_eq hm, hafter.configured.length_eq] at hle
  have hwaited : (calls.length : Int) ≤ 2 * (Rotation.maxGain * (ready.length - 1)) :=
    calc (calls.length : Int)
      _ ≤ calls.length * Rotation.gain n :=
        le_mul_of_one_le_right (Int.natCast_nonneg _) (Rotation.one_le_gain hpos)
      _ = m.balance - n.balance := by rw [hgrown, add_sub_cancel_left]
      _ ≤ Rotation.maxGain * (ready.length - 1) - -(Rotation.maxGain * (ready.length - 1)) :=
        sub_le_sub hle hge
      _ = 2 * (Rotation.maxGain * (ready.length - 1)) := by rw [sub_neg_eq_add, two_mul]
  rw [h.configured.length_eq] at hlt
  unfold Rotation.maxGain at hwaited
  omega

/-- The same for as many times. -/
theorem Rotating.le_timesPicked (h : s.Rotating weight ready nodes)
    (hcalls : ∀ c ∈ calls, ∀ e ∈ ready, s.admits c.call e = admitted e)
    (hi : nodes[i]? = some n) (ha : admitted n.endpoint = true) (hpos : 0 < n.effective)
    (hlong : 2 ^ 33 * ready.length * d ≤ calls.length) :
    d ≤ timesPicked ⟨n.endpoint, .weight i⟩ (s.serve calls).2 := by
  induction d generalizing s nodes n calls with
  | zero => exact Nat.zero_le _
  | succ d ih =>
    -- picked once in the first stretch, and then from where this leaves off
    obtain ⟨first, rest, rfl, hfirst⟩ : ∃ first rest, calls = first ++ rest ∧
      first.length = 2 ^ 33 * ready.length :=
      ⟨calls.take (2 ^ 33 * ready.length), calls.drop (2 ^ 33 * ready.length),
        (List.take_append_drop _ _).symm,
        List.length_take_of_le ((Nat.le_mul_of_pos_right _ d.succ_pos).trans hlong)⟩
    have hfirstCalls := fun c hc => hcalls c (List.mem_append_left rest hc)
    obtain ⟨after, m, hafter, hm, hrecovers⟩ := h.serve hfirstCalls hi ha
    have hpicked := h.picked hfirstCalls hi ha hpos hfirst.ge
    have hrest : 2 ^ 33 * ready.length * d ≤ rest.length := by
      rw [List.length_append, hfirst, Nat.mul_succ] at hlong
      omega
    have hlater := ih hafter (fun c hc e he => by
      rw [(kept_serve s first).admits_eq]
      exact hcalls c (List.mem_append_right first hc) e he) hm (by rwa [hrecovers.endpoint_eq])
      (hrecovers.effective_pos hpos) hrest
    rw [hrecovers.endpoint_eq] at hlater
    rw [serve_append, timesPicked_append]
    omega

/-- Whatever was picked before and however it ended: when calls succeed one after the other and come
to the same admitted endpoints, each of these that has any effective weight left is sent one in
every `2 ^ 33` of them for each ready endpoint, at least; and each call that is sent to it raises
its effective weight by one, up to the weight. -/
theorem picked_again (s : Selector) (hmode : s.mode = .weightedRoundRobin) (ready : List Nat)
    (history : List Action) (admitted : Nat → Bool) (calls : List Errand)
    (hcalls : ∀ c ∈ calls, ∀ e ∈ ready, s.admits c.call e = admitted e) :
    ∃ nodes, ((s.rebuild ready).run history).picker = .weightedRoundRobin nodes ∧
      Rotation.Configured s.weightOf ready nodes ∧
      ∀ i n, nodes[i]? = some n → admitted n.endpoint = true →
        ∃ after m,
          (((s.rebuild ready).run history).serve calls).1.picker = .weightedRoundRobin after ∧
          after[i]? = some m ∧
          m.effective.toNat = min n.weight.toNat (n.effective.toNat +
            timesPicked ⟨n.endpoint, .weight i⟩ (((s.rebuild ready).run history).serve calls).2) ∧
          (0 < n.effective → ∀ d, 2 ^ 33 * ready.length * d ≤ calls.length →
            d ≤ timesPicked ⟨n.endpoint, .weight i⟩
              (((s.rebuild ready).run history).serve calls).2) := by
  obtain ⟨nodes, hnodes⟩ := (rotating_rebuild hmode ready).run history
  have hcalls' : ∀ c ∈ calls, ∀ e ∈ ready,
      ((s.rebuild ready).run history).admits c.call e = admitted e := by
    rw [(kept_run (s.rebuild ready) history).admits_eq]
    exact hcalls
  refine ⟨nodes, hnodes.picker_eq, hnodes.configured, fun i n hi ha => ?_⟩
  obtain ⟨after, m, hafter, hm, hrecovers⟩ := hnodes.serve hcalls' hi ha
  exact ⟨after, m, hafter.picker_eq, hm, hrecovers.effective_eq, fun hpos _ hlong =>
    hnodes.le_timesPicked hcalls' hi ha hpos hlong⟩

/-- Of weights 2 and 1 the former lost one to a failure and has it back. -/
theorem picked_again_restored :
    let s : Selector := { Selector.ofMode .weightedRoundRobin none with
      endpoints := [⟨{ name := "svc", address := "a", weight := some 2 }, 0, 0, 0⟩,
        ⟨{ name := "svc", address := "b" }, 1, 0, 0⟩] }
    let call : Call := { service := "svc", method := "M" }
    let state := (s.rebuild [0, 1]).run [.pick call 0 0, .finish ⟨⟨0, .weight 0⟩, 1⟩ true 0]
    let calls : List Errand := List.replicate (2 ^ 34) { call }
    (∃ other, state.picker = .weightedRoundRobin [⟨0, 2, -1, 1⟩, other]) ∧
      1 ≤ timesPicked ⟨0, .weight 0⟩ (state.serve calls).2 ∧
      ∃ m rest, (state.serve calls).1.picker = .weightedRoundRobin (m :: rest) ∧
        m.effective = 2 := by
  intro s call state calls
  have hstate : state.picker = .weightedRoundRobin [⟨0, 2, -1, 1⟩, ⟨1, 1, 1, 1⟩] := by
    decide +kernel
  have hserved (long : List Errand) (hlong : 2 ^ 34 ≤ long.length) :
      1 ≤ timesPicked ⟨0, .weight 0⟩ (state.serve long).2 ∧
        ∃ m rest, (state.serve long).1.picker = .weightedRoundRobin (m :: rest) ∧
        m.effective = 2 := by
    obtain ⟨nodes, hnodes, -, hserved⟩ := picked_again s rfl [0, 1]
      [.pick call 0 0, .finish ⟨⟨0, .weight 0⟩, 1⟩ true 0] (fun _ => true) long (fun _ _ _ _ => rfl)
    obtain rfl : nodes = [⟨0, 2, -1, 1⟩, ⟨1, 1, 1, 1⟩] := by injection hnodes.symm.trans hstate
    obtain ⟨after, m, hafter, hm, heffective, hpicked⟩ := hserved 0 _ rfl rfl
    have hone := hpicked (by decide) 1 (by simpa using hlong)
    obtain ⟨rest, rfl⟩ : ∃ rest, after = m :: rest := by
      cases after with
      | nil => cases hm
      | cons m' rest => exact ⟨rest, by rw [Option.some.inj hm]⟩
    refine ⟨hone, m, rest, hafter, UInt32.toNat_inj.mp (heffective.trans (min_eq_left ?_))⟩
    exact Nat.add_le_add_left hone 1
  exact ⟨⟨_, hstate⟩, hserved calls List.length_replicate.ge⟩

/-- What a call leaves as it was, any number of calls leave as it was. -/
theorem serve_replicate {c : Errand} {result : Result Pick} (h : s.serve [c] = (s, [result]))
    (k : Nat) : s.serve (List.replicate k c) = (s, List.replicate k result) := by
  induction k with
  | zero => rfl
  | succ k ih =>
    have happend := serve_append s [c] (List.replicate k c)
    rw [h, ih, List.singleton_append, List.singleton_append] at happend
    exact happend

/-- Two endpoints without a weight, so of weight 1: one failure leaves the first with none, and it
is never picked again, however many calls succeed. -/
theorem starved_after_failure :
    let s : Selector := { Selector.ofMode .weightedRoundRobin none with
      endpoints := [⟨{ name := "svc", address := "a" }, 0, 0, 0⟩,
        ⟨{ name := "svc", address := "b" }, 1, 0, 0⟩] }
    let call : Call := { service := "svc", method := "M" }
    let failed : Pick := ⟨⟨0, .weight 0⟩, 1⟩
    let history : List Action := [.pick call 0 0, .finish failed true 0]
    let state := (s.rebuild [0, 1]).run history
    (∀ e ∈ [0, 1], 0 < s.weightOf e ∧ state.admits call e = true) ∧
      (s.rebuild [0, 1]).picks history = [.ok failed] ∧
      ∀ k, ¬∃ p, .ok p ∈ (state.serve (List.replicate k { call })).2 ∧ p.endpoint = 0 := by
  intro s call failed history state
  have hstate : state.picker = .weightedRoundRobin [⟨0, 1, -1, 0⟩, ⟨1, 1, 1, 1⟩] := by
    decide +kernel
  have hserve : state.serve [{ call }] = (state, [.ok ⟨⟨1, .weight 1⟩, 1⟩]) := by
    have hturn : Rotation.turn (state.admits call) [⟨0, 1, -1, 0⟩, ⟨1, 1, 1, 1⟩] =
        some (1, [⟨0, 1, -1, 0⟩, ⟨1, 1, 1, 1⟩]) := by decide +kernel
    have hsettle : ([⟨0, 1, -1, 0⟩, ⟨1, 1, 1, 1⟩] : List Node).modify 1 (Rotation.settle false) =
        [⟨0, 1, -1, 0⟩, ⟨1, 1, 1, 1⟩] := by decide
    have hcons := serve_cons (c := { call }) hstate hturn rfl []
    rw [hsettle, ← hstate] at hcons
    exact hcons
  refine ⟨by decide, by decide +kernel, fun k => ?_⟩
  rintro ⟨p, hp, hendpoint⟩
  rw [serve_replicate hserve] at hp
  obtain rfl := Except.ok.inj (List.eq_of_mem_replicate hp)
  cases hendpoint

end Selector
end RemoteCall.Selection
