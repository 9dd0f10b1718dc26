import RemoteCall.Proofs.Selection.Turn
import Mathlib.Algebra.BigOperators.Ring.Finset
import Mathlib.Tactic.Ring

/-! Turns one after the other, with the same nodes admitted to each.

As long as effective weights stay, a node that was chosen `m` times in `k` turns has gained its
weight `k` times and paid the total `m` times. No balance falls to the total below zero, because
whoever pays has gained something; so after as many turns as the total nobody can have been chosen
more often than it weighs, hence nobody less often. -/
namespace RemoteCall.Selection.Rotation
variable {admits : Nat → Bool} {nodes after : List Node} {n : Node} {i j k : Nat} {f g : Nat → Int}

def withBalances (f : Nat → Int) (nodes : List Node) : List Node := nodes.mapIdx fun i n =>
  { n with balance := f i }

theorem withBalances_withBalances :
    withBalances f (withBalances g nodes) = withBalances f nodes := by
  unfold withBalances
  rw [List.mapIdx_mapIdx]
  rfl

theorem withBalances_eq_self (h : ∀ i n, nodes[i]? = some n → f i = n.balance) :
    withBalances f nodes = nodes := by
  apply List.ext_getElem?
  intro i
  rw [withBalances, List.getElem?_mapIdx]
  cases hi : nodes[i]? with
  | none => rfl
  | some n =>
    rw [Option.map_some, h i n hi]

@[simp]
theorem length_withBalances : (withBalances f nodes).length = nodes.length := List.length_mapIdx

theorem valueAt_withBalances {v : Node → Int}
    (hv : ∀ (n : Node) (x : Int), v { n with balance := x } = v n) (i : Nat) :
    valueAt v (withBalances f nodes) i = valueAt v nodes i := by
  unfold valueAt withBalances
  rw [List.getElem?_mapIdx]
  cases nodes[i]? with
  | none => rfl
  | some n => exact congrArg (Option.getD · 0) (congrArg some (hv n (f i)))

theorem total_withBalances : total admits (withBalances f nodes) = total admits nodes := by
  rw [total_eq_sum, total_eq_sum, ← sum_valueAt, ← sum_valueAt, length_withBalances]
  exact Finset.sum_congr rfl fun i _ => valueAt_withBalances (fun _ _ => rfl) i

/-! Successive turns -/

def next (admits : Nat → Bool) (nodes : List Node) : List Node :=
  ((turn admits nodes).map (·.2)).getD nodes

def chosen (admits : Nat → Bool) (nodes : List Node) (k : Nat) : Option Nat :=
  (turn admits ((next admits)^[k] nodes)).map (·.1)

def times (admits : Nat → Bool) (nodes : List Node) (k i : Nat) : Nat :=
  (List.range k).countP fun t => chosen admits nodes t == some i

/-- A turn changes nothing of the nodes but the balances. -/
theorem next_eq_withBalances (admits : Nat → Bool) (nodes : List Node) :
    next admits nodes = withBalances (balanceAt (next admits nodes)) nodes := by
  unfold next
  cases h : turn admits nodes with
  | none => exact (withBalances_eq_self fun i n hi => balanceAt_eq hi).symm
  | some x =>
    obtain ⟨-, -, -, -, hafter⟩ := turn_eq_some h
    rw [Option.map_some, Option.getD_some]
    apply List.ext_getElem?
    intro i
    rw [withBalances, List.getElem?_mapIdx]
    cases hi : x.2[i]? with
    | none =>
      rw [hafter, List.getElem?_mapIdx, Option.map_eq_none_iff] at hi
      rw [hi]
      rfl
    | some m =>
      rw [balanceAt_eq hi]
      rw [hafter, List.getElem?_mapIdx] at hi
      obtain ⟨n, hn, rfl⟩ := Option.map_eq_some_iff.mp hi
      rw [hn]
      rfl

theorem iterate_eq_withBalances (admits : Nat → Bool) (nodes : List Node) (k : Nat) :
    (next admits)^[k] nodes = withBalances (balanceAt ((next admits)^[k] nodes)) nodes := by
  induction k with
  | zero => exact (withBalances_eq_self fun i n hi => balanceAt_eq hi).symm
  | succ k ih =>
    rw [Function.iterate_succ_apply']
    refine (next_eq_withBalances admits _).trans ?_
    generalize balanceAt (next admits _) = f
    rw [ih, withBalances_withBalances]

theorem times_succ (k i : Nat) :
    times admits nodes (k + 1) i =
      times admits nodes k i + if chosen admits nodes k = some i then 1 else 0 := by
  unfold times
  rw [List.range_succ, List.countP_append, List.countP_singleton]
  simp only [beq_iff_eq]

/-- What a node gained and paid, turn by turn. -/
structure Accounted (admits : Nat → Bool) (nodes : List Node) (k : Nat) : Prop where
  balance_eq : ∀ i < nodes.length, balanceAt ((next admits)^[k] nodes) i =
    k * valueAt (share admits) nodes i - total admits nodes * times admits nodes k i
  above : ∀ i < nodes.length, -total admits nodes < balanceAt ((next admits)^[k] nodes) i
  sum_times : ∑ i ∈ Finset.range nodes.length, times admits nodes k i = k
  times_eq_zero : ∀ i n, nodes[i]? = some n → admits n.endpoint = false → times admits nodes k i = 0

/-- Somebody is admitted if anything is handed out. -/
theorem exists_turn (h : 0 < total admits nodes) (k : Nat) :
    ∃ j after, turn admits ((next admits)^[k] nodes) = some (j, after) := by
  cases hturn : turn admits ((next admits)^[k] nodes) with
  | some x => exact ⟨x.1, x.2, rfl⟩
  | none =>
    have hnone := turn_eq_none_iff.mp hturn
    rw [← total_withBalances, ← iterate_eq_withBalances admits nodes k, total_eq_sum] at h
    have hzero : (((next admits)^[k] nodes).map (share admits)).sum = 0 := by
      refine List.sum_eq_zero fun x hx => ?_
      obtain ⟨n, hn, rfl⟩ := List.mem_map.mp hx
      rw [share, hnone n hn]
      rfl
    exact absurd h (by rw [hzero]; exact lt_irrefl 0)

theorem accounted_zero (h : 0 < total admits nodes) (hz : ∀ n ∈ nodes, n.balance = 0) :
    Accounted admits nodes 0 := by
  have hbalance (i : Nat) (hi : i < nodes.length) : balanceAt nodes i = 0 :=
    (balanceAt_eq (List.getElem?_eq_getElem hi)).trans (hz _ (List.getElem_mem hi))
  refine ⟨fun i hi => ?_, fun i hi => ?_, Finset.sum_eq_zero fun i _ => rfl, fun i n _ _ => rfl⟩
  · rw [Function.iterate_zero_apply, hbalance i hi, times]
    simp
  · rw [Function.iterate_zero_apply, hbalance i hi]
    omega

/-- After every turn the balances sum to zero. -/
theorem Accounted.sum_balance (h : Accounted admits nodes k) :
    ∑ i ∈ Finset.range nodes.length, balanceAt ((next admits)^[k] nodes) i = 0 := by
  have htimes : ∑ i ∈ Finset.range nodes.length, (times admits nodes k i : Int) = k := by
    exact_mod_cast h.sum_times
  calc ∑ i ∈ Finset.range nodes.length, balanceAt ((next admits)^[k] nodes) i
    _ = ∑ i ∈ Finset.range nodes.length,
        (k * valueAt (share admits) nodes i - total admits nodes * times admits nodes k i) :=
      Finset.sum_congr rfl fun i hi => h.balance_eq i (Finset.mem_range.mp hi)
    _ = k * ∑ i ∈ Finset.range nodes.length, valueAt (share admits) nodes i -
        total admits nodes * ∑ i ∈ Finset.range nodes.length, (times admits nodes k i : Int) := by
      rw [Finset.sum_sub_distrib, ← Finset.mul_sum, ← Finset.mul_sum]
    _ = k * total admits nodes - total admits nodes * k := by
      rw [sum_valueAt, ← total_eq_sum, htimes]
    _ = 0 := sub_eq_zero.mpr (mul_comm _ _)

/-- Whoever pays had something to pay with. -/
theorem Accounted.leader_pos (h : Accounted admits nodes k) (hpos : 0 < total admits nodes)
    (hturn : turn admits ((next admits)^[k] nodes) = some (j, after)) :
    0 < balanceAt ((next admits)^[k] nodes) j + valueAt (share admits) nodes j := by
  have hsame := iterate_eq_withBalances admits nodes k
  have hlength : ((next admits)^[k] nodes).length = nodes.length := by
    rw [hsame, length_withBalances]
  have hshare (i : Nat) : valueAt (share admits) ((next admits)^[k] nodes) i = valueAt
      (share admits) nodes i := by
    rw [hsame]
    exact valueAt_withBalances (fun _ _ => rfl) i
  obtain ⟨c, hc, hadmits, hmax, -⟩ := turn_eq_some hturn
  by_contra hle
  -- then nobody has anything, although the total was handed out
  have hall : ∀ i ∈ Finset.range nodes.length,
      balanceAt ((next admits)^[k] nodes) i + valueAt (share admits) nodes i ≤ 0 := by
    intro i hi
    have hi : i < nodes.length := Finset.mem_range.mp hi
    have hm := List.getElem?_eq_getElem (hlength.symm ▸ hi : i < ((next admits)^[k] nodes).length)
    generalize ((next admits)^[k] nodes)[i] = m at hm
    cases ha : admits m.endpoint with
    | true =>
      rw [← hshare, balanceAt_eq hc, valueAt_eq hc, share, if_pos hadmits] at hle
      rw [← hshare, balanceAt_eq hm, valueAt_eq hm, share, if_pos ha]
      exact (hmax i m hm ha).trans (not_lt.mp hle)
    | false =>
      have hn := List.getElem?_eq_getElem hi
      have hendpoint : m.endpoint = nodes[i].endpoint := by
        rw [hsame, withBalances, List.getElem?_mapIdx, hn] at hm
        rw [← Option.some.inj hm]
      have hnone : valueAt (share admits) nodes i = 0 := by
        rw [valueAt_eq hn, share, ← hendpoint, ha]
        rfl
      rw [h.balance_eq i hi, hnone, h.times_eq_zero i _ hn (hendpoint ▸ ha)]
      simp
  have hsum := Finset.sum_nonpos hall
  rw [Finset.sum_add_distrib, h.sum_balance, sum_valueAt, ← total_eq_sum, zero_add] at hsum
  exact absurd hpos (not_lt.mpr hsum)

/-- A turn gives each node what it has coming, and the chosen one pays the total. -/
theorem balanceAt_iterate_succ (hturn : turn admits ((next admits)^[k] nodes) = some (j, after))
    (i : Nat) :
    balanceAt ((next admits)^[k + 1] nodes) i =
      balanceAt ((next admits)^[k] nodes) i + valueAt (share admits) nodes i -
        if i = j then total admits nodes else 0 := by
  have hsame := iterate_eq_withBalances admits nodes k
  have hnext : (next admits)^[k + 1] nodes = after := by
    rw [Function.iterate_succ_apply', next, hturn, Option.map_some, Option.getD_some]
  have hshare : valueAt (share admits) ((next admits)^[k] nodes) i =
      valueAt (share admits) nodes i := by
    rw [hsame]
    exact valueAt_withBalances (fun _ _ => rfl) i
  have htotal : total admits ((next admits)^[k] nodes) = total admits nodes := by
    rw [hsame, total_withBalances]
  rw [hnext, balanceAt_turn hturn, hshare, htotal]

/-- One more turn keeps the account. -/
theorem Accounted.succ (h : Accounted admits nodes k) (hpos : 0 < total admits nodes) :
    Accounted admits nodes (k + 1) := by
  obtain ⟨j, after, hturn⟩ := exists_turn hpos k
  have hsame := iterate_eq_withBalances admits nodes k
  have hlength : ((next admits)^[k] nodes).length = nodes.length := by
    rw [hsame, length_withBalances]
  have hchosen : chosen admits nodes k = some j := by rw [chosen, hturn, Option.map_some]
  have hbalance := balanceAt_iterate_succ hturn
  obtain ⟨c, hc, hadmits, -, -⟩ := turn_eq_some hturn
  have hj : j < nodes.length := hlength ▸ (List.getElem?_eq_some_iff.mp hc).1
  refine ⟨fun i hi => ?_, fun i hi => ?_, ?_, fun i n hn ha => ?_⟩
  · rw [hbalance, h.balance_eq i hi, times_succ, hchosen]
    by_cases hij : i = j
    · subst hij
      simp only [↓reduceIte]
      push_cast
      ring
    · rw [if_neg hij, if_neg fun heq => hij (Option.some.inj heq).symm]
      push_cast
      ring
  · rw [hbalance]
    split
    · rename_i hij
      have hlead := h.leader_pos hpos hturn
      rw [hij]
      omega
    · have habove := h.above i hi
      have hge : 0 ≤ valueAt (share admits) nodes i := valueAt_share_nonneg i
      omega
  · simp only [times_succ, hchosen, Option.some.injEq]
    rw [Finset.sum_add_distrib, h.sum_times, Finset.sum_ite_eq, if_pos (Finset.mem_range.mpr hj)]
  · rw [times_succ, h.times_eq_zero i n hn ha, hchosen, if_neg]
    intro heq
    obtain rfl := Option.some.inj heq
    rw [hsame, withBalances, List.getElem?_mapIdx, hn] at hc
    have hendpoint : n.endpoint = c.endpoint := by rw [← Option.some.inj hc]
    rw [hendpoint, hadmits] at ha
    cases ha

theorem accounted (hpos : 0 < total admits nodes) (hz : ∀ n ∈ nodes, n.balance = 0) (k : Nat) :
    Accounted admits nodes k := by
  induction k with
  | zero => exact accounted_zero hpos hz
  | succ k ih => exact ih.succ hpos

/-! One cycle -/

/-- In as many turns as the total each node is chosen as often as it weighs. -/
theorem times_cycle (hpos : 0 < total admits nodes) (hz : ∀ n ∈ nodes, n.balance = 0)
    (hk : (k : Int) = total admits nodes) (hi : i < nodes.length) :
    (times admits nodes k i : Int) = valueAt (share admits) nodes i := by
  have h := accounted hpos hz k
  have hle : ∀ i ∈ Finset.range nodes.length, (times admits nodes k i : Int) ≤ valueAt
      (share admits) nodes i := by
    intro i hi
    have hi := Finset.mem_range.mp hi
    have habove := h.above i hi
    rw [h.balance_eq i hi, hk, ← mul_sub] at habove
    have hlt : -1 < valueAt (share admits) nodes i - times admits nodes k i := by
      refine lt_of_mul_lt_mul_left ?_ hpos.le
      rwa [mul_neg_one]
    omega
  have hsum : ∑ i ∈ Finset.range nodes.length, (times admits nodes k i : Int) =
      ∑ i ∈ Finset.range nodes.length, valueAt (share admits) nodes i := by
    rw [sum_valueAt, ← total_eq_sum, ← hk]
    exact_mod_cast h.sum_times
  exact (Finset.sum_eq_sum_iff_of_le hle).mp hsum i (Finset.mem_range.mpr hi)

/-- A cycle ends as it began. -/
theorem iterate_cycle (hpos : 0 < total admits nodes) (hz : ∀ n ∈ nodes, n.balance = 0)
    (hk : (k : Int) = total admits nodes) : (next admits)^[k] nodes = nodes := by
  rw [iterate_eq_withBalances]
  refine withBalances_eq_self fun i n hi => ?_
  have hlt := (List.getElem?_eq_some_iff.mp hi).1
  rw [(accounted hpos hz k).balance_eq i hlt, times_cycle hpos hz hk hlt, hk, sub_self,
    hz n (List.mem_of_getElem? hi)]

/-- The choices repeat after as many turns as the nodes weigh together. -/
theorem chosen_add_cycle (hpos : 0 < total admits nodes) (hz : ∀ n ∈ nodes, n.balance = 0)
    (hk : (k : Int) = total admits nodes) (t : Nat) :
    chosen admits nodes (t + k) = chosen admits nodes t := by
  rw [chosen, Function.iterate_add_apply, iterate_cycle hpos hz hk, chosen]

/-- The turns of any stretch as long as a cycle. -/
theorem times_stretch (hpos : 0 < total admits nodes) (hz : ∀ n ∈ nodes, n.balance = 0)
    (hk : (k : Int) = total admits nodes) (hi : i < nodes.length) (start : Nat) :
    ((List.range' start k).countP fun t => chosen admits nodes t == some i : Int) =
      valueAt (share admits) nodes i := by
  have hsplit : times admits nodes (start + k) i =
      times admits nodes start i + (List.range' start k).countP fun t =>
      chosen admits nodes t == some i := by
    have hrange := List.range'_append_1 (s := 0) (m := start) (n := k)
    rw [Nat.zero_add] at hrange
    rw [times, times, List.range_eq_range', List.range_eq_range', ← List.countP_append, hrange]
  have hshift : times admits nodes (k + start) i = times admits nodes k i +
      times admits nodes start i := by
    rw [times, List.range_add, List.countP_append, List.countP_map, times, times]
    congr 1
    refine List.countP_congr fun t _ => ?_
    rw [Function.comp_apply, Nat.add_comm k t, chosen_add_cycle hpos hz hk]
  have hcycle := times_cycle hpos hz hk hi
  rw [Nat.add_comm k start] at hshift
  omega

end RemoteCall.Selection.Rotation
