import RemoteCall.Proofs.Selection.Sweep

/-! Picks and ends of calls in every interleaving.

A turn that nothing interrupts is the turn that is taken at once, and one that finds nobody leaves
all to the calls that end meanwhile. -/
namespace RemoteCall.Selection.Rotation
variable {admits : Nat → Bool} {nodes : List Node} {n : Node} {i : Nat}

namespace Turning
variable {s s' : Turning}

/-! Turns that nothing interrupts -/

def foremost (admits : Nat → Bool) (nodes : List Node) : Option (Nat × Int) :=
  (leader? admits nodes).map fun i => (i, balanceAt nodes i)

/-- Who leads when a turn has looked at these nodes, and with which balance. -/
def leading (admits : Nat → Bool) (nodes : List Node) : Option (Nat × Int) :=
  (leader? admits (credit admits nodes)).map fun i => (i, balanceAt (credit admits nodes) i)

def sweepOf (admits : Nat → Bool) (nodes : List Node) : Sweep where
  next := nodes.length
  total := total admits nodes
  leader := leading admits nodes

/-- The next node leads if it is admitted and is ahead of who led. -/
theorem leader?_concat (nodes : List Node) (n : Node) :
    leader? admits (nodes ++ [n]) =
      if admits n.endpoint then
        match leader? admits nodes with
        | none => some nodes.length
        | some i => if balanceAt nodes i < n.balance then some nodes.length else some i
      else leader? admits nodes := by
  unfold leader?
  rw [List.zipIdx_append, List.filter_append, List.maxOn?_append]
  by_cases hn : admits n.endpoint = true
  · cases hmax : (nodes.zipIdx.filter fun n => admits n.1.endpoint).maxOn? fun n => n.1.balance with
    | none => simp [hn]
    | some x =>
      have hx : nodes[x.2]? = some x.1 :=
        List.mk_mem_zipIdx_iff_getElem?.mp (List.mem_filter.mp (List.maxOn?_mem hmax)).1
      have hbalance := balanceAt_eq hx
      by_cases hlt : x.1.balance < n.balance
      · have hright := maxOn_eq_right (f := fun n : Node × Nat => n.1.balance) (x := x)
          (y := (n, nodes.length)) (not_le.mpr hlt)
        simp [hn, hbalance, hlt, hright]
      · have hleft := maxOn_eq_left (f := fun n : Node × Nat => n.1.balance) (x := x)
          (y := (n, nodes.length)) (not_lt.mp hlt)
        simp [hn, hbalance, hlt, hleft]
  · simp [hn]

@[simp]
theorem length_credit : (credit admits nodes).length = nodes.length := by
  rw [credit_eq_map, List.length_map]

theorem credit_concat (nodes : List Node) (n : Node) :
    credit admits (nodes ++ [n]) =
      credit admits nodes ++ [{ n with balance := n.balance + share admits n }] := by
  rw [credit_eq_map, credit_eq_map, List.map_append, List.map_singleton]

theorem total_concat (nodes : List Node) (n : Node) :
    total admits (nodes ++ [n]) = total admits nodes + share admits n := by
  rw [total_eq_sum, total_eq_sum, List.map_append, List.sum_append,
    List.map_singleton, List.sum_singleton]

theorem balanceAt_concat (hi : i < nodes.length) :
    balanceAt (nodes ++ [n]) i = balanceAt nodes i := by
  unfold balanceAt valueAt
  rw [List.getElem?_append_left hi]

theorem balanceAt_last (nodes : List Node) (n : Node) :
    balanceAt (nodes ++ [n]) nodes.length = n.balance :=
  balanceAt_eq List.getElem?_concat_length

theorem foremost_concat {w : Sweep} (hnext : w.next = nodes.length)
    (hleader : w.leader = foremost admits nodes) (n : Node) :
    foremost admits (nodes ++ [n]) =
      if admits n.endpoint then w.lead n.balance else foremost admits nodes := by
  unfold Sweep.lead
  rw [hleader, hnext, foremost, foremost, leader?_concat]
  cases hl : leader? admits nodes with
  | none =>
    by_cases ha : admits n.endpoint = true
    · rw [if_pos ha, if_pos ha]
      dsimp only [Option.map_none, Option.map_some]
      rw [balanceAt_last]
    · rw [if_neg ha, if_neg ha]
      rfl
  | some i =>
    obtain ⟨c, hc, -, -⟩ := leader?_eq_some hl
    have hi := balanceAt_concat (n := n) (List.getElem?_eq_some_iff.mp hc).1
    by_cases ha : admits n.endpoint = true
    · rw [if_pos ha, if_pos ha]
      dsimp only [Option.map_some]
      split
      · rw [Option.map_some, balanceAt_last]
      · rw [Option.map_some, hi]
    · rw [if_neg ha, if_neg ha, Option.map_some, Option.map_some, hi]

theorem leading_concat (admits : Nat → Bool) (nodes : List Node) (n : Node) :
    leading admits (nodes ++ [n]) =
    if admits n.endpoint then (sweepOf admits nodes).lead (n.balance + share admits n)
      else leading admits nodes := by
  have hnext : (sweepOf admits nodes).next = (credit admits nodes).length := length_credit.symm
  have hcredit := foremost_concat hnext rfl { n with balance := n.balance + share admits n }
  rwa [← credit_concat] at hcredit

/-- Everything that a look does, if it is to see who is admitted. -/
theorem look_eq_some {w w' : Sweep} {n' : Node} (h : w.look (admits n.endpoint) n = some (w', n')) :
    w' = { next := w.next + 1, total := w.total + share admits n,
           leader := if admits n.endpoint then w.lead (n.balance + share admits n) else w.leader } ∧
      n' = { n with balance := n.balance + share admits n } := by
  unfold Sweep.look at h
  unfold share
  by_cases ha : admits n.endpoint = true
  · rw [if_pos ha] at h
    obtain ⟨total', htotal, h⟩ := Option.bind_eq_some_iff.mp h
    obtain ⟨balance', hbalance, h⟩ := Option.bind_eq_some_iff.mp h
    obtain ⟨rfl, rfl⟩ := Prod.mk.inj (Option.some.inj h)
    obtain rfl := eq_of_signed64 htotal
    obtain rfl := eq_of_signed64 hbalance
    rw [if_pos ha, if_pos ha]
    exact ⟨rfl, rfl⟩
  · rw [if_neg ha] at h
    obtain ⟨rfl, rfl⟩ := Prod.mk.inj (Option.some.inj h)
    rw [if_neg ha, if_neg ha, add_zero, add_zero]
    exact ⟨rfl, rfl⟩

/-- A look at one more node comes to where a turn over all of them is then. -/
theorem look_sweepOf {w' : Sweep} {n' : Node}
    (h : (sweepOf admits nodes).look (admits n.endpoint) n = some (w', n')) :
    w' = sweepOf admits (nodes ++ [n]) ∧
    credit admits (nodes ++ [n]) = credit admits nodes ++ [n'] := by
  obtain ⟨rfl, rfl⟩ := look_eq_some h
  refine ⟨?_, credit_concat nodes n⟩
  unfold sweepOf
  rw [total_concat, leading_concat, List.length_append]
  rfl

/-- What the looks of a turn come to, node after node. -/
theorem run_looks {rest : List Node} {steps : List Step}
    (h : run { nodes := credit admits nodes ++ rest, sweep := some (sweepOf admits nodes) }
      (rest.map (fun n => .look (admits n.endpoint)) ++ steps) = some s') :
    run { nodes := credit admits (nodes ++ rest), sweep := some (sweepOf admits (nodes ++ rest)) }
      steps = some s' := by
  -- on the nodes that are still to come: those before are credited and the sweep knows their leader
  induction rest generalizing nodes with
  | nil => rwa [List.append_nil] at h ⊢
  | cons n rest ih =>
    have hlength : (credit admits nodes).length = nodes.length := length_credit
    have hnext : (credit admits nodes ++ n :: rest)[(sweepOf admits nodes).next]? = some n := by
      change (credit admits nodes ++ n :: rest)[nodes.length]? = some n
      rw [← hlength, List.getElem?_append_right (Nat.le_refl _), Nat.sub_self]
      rfl
    rw [List.map_cons, List.cons_append, run_cons] at h
    obtain ⟨s₁, hstep, h⟩ := Option.bind_eq_some_iff.mp h
    simp only [Turning.step, hnext] at hstep
    obtain ⟨⟨w', n'⟩, hlook, hstep⟩ := Option.bind_eq_some_iff.mp hstep
    obtain ⟨rfl, hcredit⟩ := look_sweepOf hlook
    obtain rfl := Option.some.inj hstep
    have hset : (credit admits nodes ++ n :: rest).set (sweepOf admits nodes).next n' =
        credit admits (nodes ++ [n]) ++ rest := by
      change (credit admits nodes ++ n :: rest).set nodes.length n' = _
      rw [hcredit, ← hlength, List.set_append_right _ _ (Nat.le_refl _),
        Nat.sub_self, List.set_cons_zero, List.append_assoc, List.singleton_append]
    rw [List.append_cons]
    apply ih
    rw [← hset]
    exact h

theorem credit_eq_self (h : ∀ n ∈ nodes, admits n.endpoint = false) :
    credit admits nodes = nodes := by
  refine (List.map_congr_left fun n hn => ?_).trans (List.map_id _)
  rw [h n hn]
  rfl

/-- The end of a turn that has looked at all nodes. -/
theorem choose_sweepOf {after : List Node}
    (h : (sweepOf admits nodes).choose (credit admits nodes) = some after) :
    after = ((turn admits nodes).map (·.2)).getD nodes := by
  unfold Sweep.choose sweepOf leading at h
  cases hl : leader? admits (credit admits nodes) with
  | none =>
    have hturn : turn admits nodes = none := Option.map_eq_none_iff.mpr hl
    rw [hl] at h
    obtain rfl := Option.some.inj h
    rw [hturn]
    exact credit_eq_self (turn_eq_none_iff.mp hturn)
  | some i =>
    obtain ⟨c, hc, -, -⟩ := leader?_eq_some hl
    have hturn : turn admits nodes = some (i, (credit admits nodes).modify i fun n =>
        { n with balance := n.balance - total admits nodes }) := by rw [turn, hl, Option.map_some]
    simp only [hl, Option.map_some, hc] at h
    obtain ⟨balance', hbalance, h⟩ := Option.bind_eq_some_iff.mp h
    obtain rfl := eq_of_signed64 hbalance
    obtain rfl := Option.some.inj h
    rw [hturn]
    exact set_eq_modify hc fun n => { n with balance := n.balance - total admits nodes }

/-- A turn that nothing interrupts is the turn that is taken at once. -/
theorem run_uninterrupted (hw : s.sweep = none)
    (h : s.run (uninterrupted admits s.nodes) = some s') :
    s' = { nodes := ((turn admits s.nodes).map (·.2)).getD s.nodes } := by
  obtain ⟨nodes, sweep⟩ := s
  obtain rfl : sweep = none := hw
  have h :
      run { nodes := credit admits ([] ++ nodes), sweep := some (sweepOf admits ([] ++ nodes)) }
        [.choose] = some s' := run_looks h
  rw [List.nil_append, run_cons] at h
  obtain ⟨s₁, hstep, h⟩ := Option.bind_eq_some_iff.mp h
  obtain rfl : s₁ = s' := Option.some.inj h
  have hend : ¬(sweepOf admits nodes).next < (credit admits nodes).length := by
    rw [length_credit]
    exact Nat.lt_irrefl _
  simp only [Turning.step, hend, ↓reduceIte] at hstep
  obtain ⟨after, hchoose, hstep⟩ := Option.bind_eq_some_iff.mp hstep
  obtain rfl := Option.some.inj hstep
  rw [choose_sweepOf hchoose]

/-! Turns that find nobody -/

theorem run_nothing {looks : List Step} (hlooks : ∀ x ∈ looks, x.givesNothing = true)
    (nodes : List Node) (k : Nat) :
    (run { nodes, sweep := some { next := k } } (looks ++ [.choose])).map (·.nodes) =
      (run { nodes } (looks.filter Step.isSettle)).map (·.nodes) := by
  -- on the looks; the sweep only moves on, while the ends of calls come to the nodes between them
  induction looks generalizing nodes k with
  | nil =>
    rw [List.nil_append, run_cons]
    by_cases hk : k < nodes.length
    · simp only [Turning.step, hk, ↓reduceIte]
      rfl
    · simp only [Turning.step, hk, ↓reduceIte]
      rfl
  | cons x rest ih =>
    have ih := ih fun y hy => hlooks y (List.mem_cons_of_mem x hy)
    have hx := hlooks x List.mem_cons_self
    cases x with
    | start => cases hx
    | choose => cases hx
    | settle j failed => exact ih (nodes.modify j (settle failed)) k
    | look admitted =>
      cases admitted with
      | true => cases hx
      | false =>
        rw [List.cons_append, run_cons]
        cases hk : nodes[k]? with
        | none =>
          simp only [Turning.step, hk]
          exact ih nodes k
        | some n =>
          have hsame : nodes.set k n = nodes := by
            obtain ⟨hlt, rfl⟩ := List.getElem?_eq_some_iff.mp hk
            exact List.set_getElem_self hlt
          simp only [Turning.step, hk]
          change (run { nodes := nodes.set k n, sweep := some { next := k + 1 } } _).map _ = _
          rw [hsame]
          exact ih nodes (k + 1)

/-- A turn that gives nobody anything leaves nothing behind but the ends of calls. -/
theorem run_refused (hw : s.sweep = none) {looks : List Step}
    (hlooks : ∀ x ∈ looks, x.givesNothing = true) :
    (s.run (.start :: looks ++ [.choose])).map (·.nodes) =
      (s.run (looks.filter Step.isSettle)).map (·.nodes) := by
  obtain ⟨nodes, sweep⟩ := s
  obtain rfl : sweep = none := hw
  exact run_nothing hlooks nodes 0

/-- Whatever the weights are, whoever is admitted to each turn and whenever calls end: no sum leaves
64 bits, and effective weights stay between zero and the weights. Between turns the balances sum to
zero; a turn that nothing interrupts is then the one that is taken at once, and one that finds
nobody changes nothing, other than the calls do that end in its course. -/
theorem sums_within_bounds (weight : Nat → UInt32) (ready : List Nat)
    (hready : ready.length ≤ 2 ^ 14) (steps : List Step) :
    ∃ s, (ofPicker (.ofReady .weightedRoundRobin weight ready)).run steps = some s ∧
      Configured weight ready s.nodes ∧
      (s.sweep = none →
        (s.nodes.map Node.balance).sum = 0 ∧
        (∀ admits, s.run (uninterrupted admits s.nodes) =
          some { nodes := ((turn admits s.nodes).map (·.2)).getD s.nodes }) ∧
        ∀ looks : List Step, (∀ x ∈ looks, x.givesNothing = true) →
          (s.run (.start :: looks ++ [.choose])).map (·.nodes) =
            (s.run (looks.filter Step.isSettle)).map (·.nodes)) := by
  obtain ⟨s, hrun, hs⟩ := (kept_ofReady weight ready).run hready steps
  refine ⟨s, hrun, hs.configured, fun hw =>
    ⟨?_, fun admits => ?_, fun looks hlooks => run_refused hw hlooks⟩⟩
  · rw [← sum_balanceAt]
    exact (hs.level hw).sum_eq
  · obtain ⟨s', hs', -⟩ := hs.run hready (uninterrupted admits s.nodes)
    rw [hs', run_uninterrupted hw hs']

/-- Two calls end in the middle of a turn, over a node that was looked at and over one that was not.
-/
theorem sums_within_bounds_interrupted :
    let heavy : Nat → UInt32 := fun _ => 4294967295
    let picker := Picker.ofReady .weightedRoundRobin heavy [4, 7]
    let steps : List Step :=
      [.start, .look true, .look true, .choose, .start, .look true, .settle 0 true,
      .settle 1 true, .look true, .choose, .start, .look true, .look false, .choose]
    let after : List Node :=
      [{ endpoint := 4, weight := 4294967295, balance := 0, effective := 4294967294 },
      { endpoint := 7, weight := 4294967295, balance := 0, effective := 4294967294 }]
    let looks : List Step := [.look false, .settle 0 false, .look false]
    [4, 7].length ≤ 2 ^ 14 ∧ (ofPicker picker).run steps = some { nodes := after } ∧
      Configured heavy [4, 7] after ∧ (after.map Node.balance).sum = 0 ∧
      (run { nodes := after } (.start :: looks ++ [.choose])).map (·.nodes) =
        (run { nodes := after } (looks.filter Step.isSettle)).map (·.nodes) := by
  intro heavy picker steps after looks
  have hafter : (ofPicker picker).run steps = some { nodes := after } := by decide +kernel
  obtain ⟨s, hrun, hs, hidle⟩ := sums_within_bounds heavy [4, 7] (by decide) steps
  obtain rfl : s = { nodes := after } := Option.some.inj (hrun.symm.trans hafter)
  obtain ⟨hsum, -, hrefused⟩ := hidle rfl
  exact ⟨by decide, hafter, hs, hsum, hrefused looks (by decide)⟩

end Turning

end RemoteCall.Selection.Rotation
