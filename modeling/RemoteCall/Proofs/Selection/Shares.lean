import RemoteCall.Proofs.Selection.Action
import RemoteCall.Proofs.Selection.Turns

/-! Calls in proportion to weights.

While no call fails, the effective weights are the weights, and all that moves the picker is one
turn after the other over the same nodes. -/
namespace RemoteCall.Selection
variable {s s' : Selector} {nodes : List Node} {n : Node} {i k : Nat} {admits : Nat → Bool}
  {actions : List Action}

namespace Rotation

/-- A success changes nothing at a node that has its weight. -/
theorem modify_settle_eq_self (h : ∀ n ∈ nodes, n.effective = n.weight) (i : Nat) :
    nodes.modify i (settle false) = nodes := by
  apply List.ext_getElem?
  intro j
  rw [List.getElem?_modify]
  cases hj : nodes[j]? with
  | none => rfl
  | some n =>
    have hfull : settle false n = n := by
      have hlt : ¬n.effective < n.weight := h n (List.mem_of_getElem? hj) ▸ UInt32.lt_irrefl _
      simp [settle, hlt]
    by_cases hij : i = j <;> simp [hij, hfull]

/-- Turns keep what is no balance. -/
theorem forall_mem_next {p : Node → Prop}
    (hp : ∀ (n : Node) (x : Int), p n → p { n with balance := x }) (h : ∀ n ∈ nodes, p n) :
    ∀ n ∈ next admits nodes, p n := by
  rw [next_eq_withBalances]
  intro n hn
  obtain ⟨i, hi⟩ := List.mem_iff_getElem?.mp hn
  rw [withBalances, List.getElem?_mapIdx] at hi
  obtain ⟨m, hm, rfl⟩ := Option.map_eq_some_iff.mp hi
  exact hp m _ (h m (List.mem_of_getElem? hm))

theorem endpoint_next (i : Nat) :
    ((next admits nodes)[i]?.map Node.endpoint) = nodes[i]?.map Node.endpoint := by
  rw [next_eq_withBalances, withBalances, List.getElem?_mapIdx, Option.map_map]
  rfl

end Rotation

open Rotation

namespace Selector

def pickCount (actions : List Action) : Nat := actions.countP fun a => a.call?.isSome

def turnResult (generation : Nat) (admits : Nat → Bool) (nodes : List Node) (t : Nat) :
    Result Pick :=
  match chosen admits nodes t with
  | some i => .ok ⟨⟨(nodes[i]?.map (·.endpoint)).getD 0, .weight i⟩, generation⟩
  | none => .error noConnection

theorem turnResult_succ (generation : Nat) (t : Nat) :
    turnResult generation admits nodes (t + 1) =
      turnResult generation admits (next admits nodes) t := by
  unfold turnResult chosen
  rw [Function.iterate_succ_apply]
  cases turn admits ((next admits)^[t] (next admits nodes)) with
  | none => rfl
  | some x =>
    rw [Option.map_some]
    dsimp only
    rw [endpoint_next]

/-- A pick is the next turn. -/
theorem pick_eq_turnResult (hp : s.picker = .weightedRoundRobin nodes) {call : Call}
    (ha : ∀ n ∈ nodes, s.admits call n.endpoint = admits n.endpoint) (now : Int) (draw : Nat) :
    (s.pick call now draw).map (·.2) = turnResult s.generation admits nodes 0 ∧
      (s.step (.pick call now draw)).picker = .weightedRoundRobin (next admits nodes) := by
  have hpick := pick_weightedRoundRobin hp call now draw
  rw [turn_congr ha] at hpick
  unfold turnResult chosen next
  rw [Function.iterate_zero_apply]
  cases hturn : turn admits nodes with
  | none =>
    rw [hturn] at hpick
    rw [step_of_error hpick, hpick]
    exact ⟨rfl, hp⟩
  | some x =>
    rw [hturn] at hpick
    rw [step_of_ok hpick, hpick]
    exact ⟨rfl, rfl⟩

/-- A run without failures, turn by turn. -/
theorem run_unfailing (hp : s.picker = .weightedRoundRobin nodes)
    (hfull : ∀ n ∈ nodes, n.effective = n.weight)
    (ha : ∀ a ∈ actions, ∀ call, a.call? = some call → ∀ n ∈ nodes,
      s.admits call n.endpoint = admits n.endpoint) (hs : ∀ a ∈ actions, a.succeeds = true) :
    (s.run actions).picker = .weightedRoundRobin ((next admits)^[pickCount actions] nodes) ∧
      s.picks actions =
        (List.range (pickCount actions)).map (turnResult s.generation admits nodes) := by
  induction actions generalizing s nodes with
  | nil => exact ⟨hp, rfl⟩
  | cons a rest ih =>
    have hkept := kept_step s a
    have hrest := fun b hb => hs b (List.mem_cons_of_mem a hb)
    cases a with
    | finish pick failed now =>
      -- with all of its weight a node has nothing to regain
      have hsucceeds := hs _ List.mem_cons_self
      have hfailed : failed = false := by simpa [Action.succeeds] using hsucceeds
      have hpicker : (s.step (.finish pick failed now)).picker = .weightedRoundRobin nodes := by
        obtain ⟨after, hafter, h⟩ := picker_finish hp pick failed now
        rw [hfailed] at h
        rcases h with rfl | ⟨i, rfl⟩
        · exact hafter
        · rw [modify_settle_eq_self hfull] at hafter
          exact hafter
      obtain ⟨hrun, hpicks⟩ := ih hpicker hfull (fun b hb call hcall n hn => by
        rw [hkept.admits_eq]
        exact ha b (List.mem_cons_of_mem _ hb) call hcall n hn) hrest
      rw [hkept.generation_eq] at hpicks
      exact ⟨hrun, hpicks⟩
    | pick call now draw =>
      obtain ⟨hresult, hpicker⟩ := pick_eq_turnResult hp (ha _ List.mem_cons_self call rfl) now draw
      have hfull' : ∀ n ∈ next admits nodes, n.effective = n.weight :=
        forall_mem_next (fun _ _ h => h) hfull
      obtain ⟨hrun, hpicks⟩ := ih hpicker hfull' (fun b hb call hcall => by
        rw [hkept.admits_eq]
        exact forall_mem_next (fun _ _ h => h) (ha b (List.mem_cons_of_mem _ hb) call hcall)) hrest
      have hcount : pickCount (.pick call now draw :: rest) = pickCount rest + 1 :=
        List.countP_cons_of_pos rfl
      rw [hkept.generation_eq] at hpicks
      refine ⟨?_, ?_⟩
      · rw [run_cons, hrun, hcount, Function.iterate_succ_apply]
      · rw [picks, hresult, hpicks, hcount, List.range_succ_eq_map, List.map_cons, List.map_map]
        congr 1
        refine List.map_congr_left fun t _ => ?_
        rw [Function.comp_apply, turnResult_succ]

/-! Counting -/

def endpointAt (nodes : List Node) (i : Nat) : Option Nat := nodes[i]?.map (·.endpoint)

/-- Times at which an endpoint is chosen, told by the positions at which it is listed. -/
theorem countP_endpoint (nodes : List Node) (e : Nat) {times : List Nat} {choice : Nat → Option Nat}
    (h : ∀ t ∈ times, ∃ i < nodes.length, choice t = some i) :
    (times.countP fun t => (choice t).bind (endpointAt nodes) == some e : Int) =
      ∑ i ∈ Finset.range nodes.length,
        if endpointAt nodes i = some e then (times.countP fun t => choice t == some i : Int)
        else 0 := by
  induction times with
  | nil => simp
  | cons t rest ih =>
    obtain ⟨j, hj, hchoice⟩ := h t List.mem_cons_self
    have ih := ih fun t ht => h t (List.mem_cons_of_mem _ ht)
    -- at this time one position is chosen, and it counts for the endpoint that is listed there
    have hone : ∑ i ∈ Finset.range nodes.length,
        (if endpointAt nodes i = some e then (if j = i then 1 else 0 : Int) else 0) =
          if endpointAt nodes j = some e then 1 else 0 := by
      rw [Finset.sum_eq_single_of_mem j (Finset.mem_range.mpr hj)]
      · simp
      · intro i _ hij
        simp [Ne.symm hij]
    simp only [List.countP_cons, hchoice, Option.bind_some, Nat.cast_add,
      beq_iff_eq, Option.some.injEq, ite_add_zero, Finset.sum_add_distrib] at ih ⊢
    rw [ih]
    congr 1
    push_cast
    exact hone.symm

/-- What the positions gain at which an endpoint is listed. -/
theorem sum_share_fresh (weight : Nat → UInt32) (ready : List Nat) (e : Nat) :
    ((fresh weight ready).map fun n => if n.endpoint = e then share admits n else 0).sum =
      ((if admits e then ready.count e * (weight e).toNat else 0 : Nat) : Int) := by
  unfold fresh
  rw [List.map_map]
  induction ready with
  | nil => simp
  | cons x rest ih =>
    rw [List.map_cons, List.sum_cons, ih, List.count_cons]
    by_cases hx : x = e
    · subst hx
      by_cases ha : admits x = true
      · simp [share, gain, ha]
        ring
      · simp [share, ha]
    · simp [hx]

/-- With full effective weights a round hands out what the admitted endpoints weigh. -/
theorem total_fresh (admits : Nat → Bool) (weight : Nat → UInt32) (ready : List Nat) :
    total admits (fresh weight ready) =
    (((ready.filter admits).map fun e => (weight e).toNat).sum : Nat) := by
  unfold total fresh
  induction ready with
  | nil => rfl
  | cons e rest ih =>
    rw [List.map_cons, List.filter_cons, List.filter_cons]
    by_cases ha : admits e = true
    · rw [if_pos ha, if_pos ha, List.foldr_cons, ih, List.map_cons, List.sum_cons, Nat.cast_add]
      rfl
    · rw [if_neg ha, if_neg ha, ih]

/-- How often an endpoint is chosen in a stretch of turns as long as a cycle. -/
theorem countP_stretch {weight : Nat → UInt32} {ready : List Nat}
    (hpos : 0 < total admits (fresh weight ready))
    (hk : (k : Int) = total admits (fresh weight ready)) (start e : Nat) :
    ((List.range' start k).countP fun t =>
      (chosen admits (fresh weight ready) t).bind (endpointAt (fresh weight ready)) == some e) =
      if admits e then ready.count e * (weight e).toNat else 0 := by
  have hz (n : Node) (hn : n ∈ fresh weight ready) : n.balance = 0 := (forall_mem_fresh n hn).2.2.2
  refine Int.ofNat_inj.mp ((countP_endpoint _ e fun t _ => ?_).trans ?_)
  · obtain ⟨j, after, hturn⟩ := exists_turn hpos t
    obtain ⟨c, hc, -⟩ := turn_eq_some hturn
    have hlt := (List.getElem?_eq_some_iff.mp hc).1
    rw [iterate_eq_withBalances, length_withBalances] at hlt
    exact ⟨j, hlt, by rw [chosen, hturn, Option.map_some]⟩
  · rw [← sum_share_fresh, ← sum_valueAt]
    refine Finset.sum_congr rfl fun i hi => ?_
    have hi := Finset.mem_range.mp hi
    rw [times_stretch hpos hz hk hi]
    unfold valueAt endpointAt
    rw [List.getElem?_eq_getElem hi]
    simp

/-- What callers see of the turns, when each of them chooses somebody. -/
theorem exists_picked (hpos : 0 < total admits nodes) (generation k : Nat) : ∃ picked : List Pick,
    (List.range k).map (turnResult generation admits nodes) = picked.map .ok ∧
      picked.map (fun p => some p.endpoint) =
        (List.range k).map fun t => (chosen admits nodes t).bind (endpointAt nodes) := by
  have hpick (t : Nat) : ∃ p : Pick, turnResult generation admits nodes t = .ok p ∧
      some p.endpoint = (chosen admits nodes t).bind (endpointAt nodes) := by
    obtain ⟨j, after, hturn⟩ := exists_turn hpos t
    obtain ⟨c, hc, -⟩ := turn_eq_some hturn
    rw [iterate_eq_withBalances, withBalances, List.getElem?_mapIdx] at hc
    obtain ⟨n, hn, -⟩ := Option.map_eq_some_iff.mp hc
    have hchosen : chosen admits nodes t = some j := by rw [chosen, hturn, Option.map_some]
    refine ⟨⟨⟨n.endpoint, .weight j⟩, generation⟩, ?_, ?_⟩
    · simp only [turnResult, hchosen, hn, Option.map_some, Option.getD_some]
    · rw [hchosen, Option.bind_some, endpointAt, hn]
      rfl
  choose pickAt hok hendpoint using hpick
  refine ⟨(List.range k).map pickAt, ?_, ?_⟩
  · rw [List.map_map]
    exact List.map_congr_left fun t _ => hok t
  · rw [List.map_map]
    exact List.map_congr_left fun t _ => hendpoint t

/-- What is picked in a block is what the turns of that block choose. -/
theorem countP_block {picked before block after : List Pick} {ends : Nat → Option Nat}
    (h : picked.map (fun p => some p.endpoint) = (List.range picked.length).map ends)
    (hsplit : picked = before ++ block ++ after) (e : Nat) :
    (block.countP fun p => p.endpoint == e) =
      (List.range' before.length block.length).countP fun t => ends t == some e := by
  have hblock : block.map (fun p => some p.endpoint) =
      (List.range' before.length block.length).map ends := by
    have hle : block.length ≤ (before ++ (block ++ after)).length - before.length := by simp
    have htake := congrArg (fun l => (l.drop before.length).take block.length) h
    rw [← List.map_drop, ← List.map_take, ← List.map_drop, ← List.map_take,
      hsplit, List.append_assoc,
      List.drop_left, List.take_left, List.range_eq_range', List.drop_range',
      List.take_range'_of_length_ge hle, Nat.zero_add, Nat.mul_one] at htake
    exact htake
  have hcount : (block.countP fun p => p.endpoint == e) =
      (block.map fun p => some p.endpoint).countP fun o => o == some e := by
    rw [List.countP_map]
    rfl
  rw [hcount, hblock, List.countP_map]
  rfl

/-- As long as no call fails and the same endpoints are admitted, each pick finds one of them; in
any stretch of picks as long as the weights of all of them together each is picked as often as it
weighs, for every time that it is listed, and whenever such stretches end, counted from the first
pick, all balances are zero again. -/
theorem shares_exact (s : Selector) (hmode : s.mode = .weightedRoundRobin) (ready : List Nat)
    (admitted : Nat → Bool) (actions : List Action)
    (hcalls : ∀ a ∈ actions, ∀ call, a.call? = some call → ∀ e ∈ ready,
      s.admits call e = admitted e) (hends : ∀ a ∈ actions, a.succeeds = true)
    (htotal : 0 < ((ready.filter admitted).map fun e => (s.weightOf e).toNat).sum) :
    ∃ picked : List Pick, (s.rebuild ready).picks actions = picked.map .ok ∧
      (∀ before block after, picked = before ++ block ++ after →
        block.length = ((ready.filter admitted).map fun e => (s.weightOf e).toNat).sum →
        ∀ e, (block.countP fun p => p.endpoint == e) =
          if admitted e then ready.count e * (s.weightOf e).toNat else 0) ∧
      (((ready.filter admitted).map fun e => (s.weightOf e).toNat).sum ∣ picked.length →
        ∃ nodes, ((s.rebuild ready).run actions).picker = .weightedRoundRobin nodes ∧
          ∀ n ∈ nodes, n.balance = 0) := by
  have hk := total_fresh admitted s.weightOf ready
  generalize ((ready.filter admitted).map fun e => (s.weightOf e).toNat).sum = k at hk htotal ⊢
  have hpos : 0 < total admitted (fresh s.weightOf ready) := by
    rw [hk]
    exact_mod_cast htotal
  have hz (n : Node) (hn : n ∈ fresh s.weightOf ready) : n.balance = 0 :=
    (forall_mem_fresh n hn).2.2.2
  obtain ⟨hrun, hpicks⟩ := run_unfailing (picker_rebuild hmode ready)
    (fun n hn => (forall_mem_fresh n hn).2.2.1)
    (fun a ha call hcall n hn => hcalls a ha call hcall _ (forall_mem_fresh n hn).1) hends
  obtain ⟨picked, hpicked, hendpoints⟩ :=
    exists_picked hpos (s.rebuild ready).generation (pickCount actions)
  have hlength : picked.length = pickCount actions := by
    have hlength := congrArg List.length hendpoints
    simpa using hlength
  refine ⟨picked, hpicks.trans hpicked, fun before block after hsplit hblock e => ?_,
    fun ⟨q, hq⟩ => ⟨_, hrun, ?_⟩⟩
  · rw [← hlength] at hendpoints
    rw [countP_block hendpoints hsplit, hblock, countP_stretch hpos hk.symm]
  · -- the picks are whole cycles, each of which ends as it began
    have hcycles : (next admitted)^[pickCount actions] (fresh s.weightOf ready) =
        fresh s.weightOf ready := by
      rw [← hlength, hq, Function.iterate_mul]
      exact Function.iterate_fixed (iterate_cycle hpos hz hk.symm) q
    rw [hcycles]
    exact hz

/-- Weights 5, none, 0 and 3, the last in another group; a call ends between the picks. -/
theorem shares_exact_spread :
    let inst (weight : Option UInt32) (group : String) : Instance :=
      { name := "svc", address := "h", weight, group := some group }
    let s : Selector := { Selector.ofMode .weightedRoundRobin (some Filter.byGroup) with
      endpoints := [⟨inst (some 5) "a", 0, 0, 0⟩, ⟨inst none "a", 1, 0, 0⟩,
        ⟨inst (some 0) "a", 2, 0, 0⟩, ⟨inst (some 3) "b", 3, 0, 0⟩] }
    let call : Call := { service := "svc", method := "M", group := some "a" }
    let admitted (e : Nat) : Bool := e != 3
    let ended : Pick := ⟨⟨0, .weight 0⟩, 1⟩
    let actions : List Action :=
      List.replicate 7 (.pick call 0 0) ++ .finish ended false 0 ::
        List.replicate 5 (.pick call 0 0)
    let ready : List Nat := [0, 1, 2, 3]
    ((ready.filter admitted).map fun e => (s.weightOf e).toNat).sum = 6 ∧
      ∃ picked : List Pick, (s.rebuild ready).picks actions = picked.map .ok ∧
        picked.map Pick.endpoint = [0, 0, 0, 1, 0, 0, 0, 0, 0, 1, 0, 0] ∧
        (∀ before block after, picked = before ++ block ++ after → block.length = 6 →
          (block.countP fun p => p.endpoint == 0) = 5 ∧
          (block.countP fun p => p.endpoint == 1) = 1 ∧
            (block.countP fun p => p.endpoint == 2) = 0) ∧
        ∃ nodes, ((s.rebuild ready).run actions).picker = .weightedRoundRobin nodes ∧
          ∀ n ∈ nodes, n.balance = 0 := by
  intro inst s call admitted ended actions ready
  have htotal : ((ready.filter admitted).map fun e => (s.weightOf e).toNat).sum = 6 := by decide
  have hcalls : ∀ a ∈ actions, ∀ c, a.call? = some c → ∀ e ∈ ready, s.admits c e = admitted e := by
    intro a ha c hc
    have hcall : ∀ a ∈ actions, a.call? = none ∨ a.call? = some call := by decide
    rcases hcall a ha with h | h
    · exact absurd (h.symm.trans hc) nofun
    · obtain rfl := Option.some.inj (h.symm.trans hc)
      decide
  obtain ⟨picked, hpicks, hblocks, hcycles⟩ :=
    shares_exact s rfl ready admitted actions hcalls (by decide) (by rw [htotal]; decide)
  rw [htotal] at hblocks hcycles
  have hpicked : picked = [0, 0, 0, 1, 0, 0, 0, 0, 0, 1, 0, 0].map fun e =>
      ⟨⟨e, .weight e⟩, 1⟩ := by
    refine List.map_injective_iff.mpr (fun _ _ h => Except.ok.inj h) (hpicks.symm.trans ?_)
    decide +kernel
  have hends : picked.map Pick.endpoint = [0, 0, 0, 1, 0, 0, 0, 0, 0, 1, 0, 0] := by
    rw [hpicked]; rfl
  refine ⟨htotal, picked, hpicks, hends, fun before block after hsplit hlength => ?_, hcycles ?_⟩
  · have hcount := hblocks before block after hsplit hlength
    exact ⟨hcount 0, hcount 1, hcount 2⟩
  · rw [← List.length_map Pick.endpoint, hends]
    decide

end Selector
end RemoteCall.Selection
