import RemoteCall.Proofs.Selection.Turn
import RemoteCall.Selection.Sweep

/-! Turns among which calls end at any moment, in sums of 64 bits.

A turn reads each effective weight once. So whatever is read in its course is a gain that a round
may give, and the balances come out level, also when no order of turns and ends of calls one after
the other is meant. -/
namespace RemoteCall.Selection.Rotation
variable {weight : Nat → UInt32} {ready : List Nat} {admits : Nat → Bool}
  {nodes : List Node} {n : Node} {i j : Nat}

theorem set_eq_modify (h : nodes[i]? = some n) (f : Node → Node) :
    nodes.set i (f n) = nodes.modify i f := by
  rw [List.modify_eq_set_getElem?, h]
  rfl

theorem Configured.set (h : Configured weight ready nodes) (hi : nodes[i]? = some n) (x : Int) :
    Configured weight ready (nodes.set i { n with balance := x }) := by
  rw [set_eq_modify hi fun m => { m with balance := x }]
  exact h.modify (f := fun m => { m with balance := x }) (fun n hn => ⟨rfl, rfl, hn⟩) i

theorem balanceAt_set (h : nodes[i]? = some n) (x : Int) :
    balanceAt (nodes.set i { n with balance := x }) = Function.update (balanceAt nodes) i x := by
  funext k
  unfold balanceAt valueAt
  rw [List.getElem?_set]
  by_cases hk : i = k
  · subst hk
    obtain ⟨hlt, -⟩ := List.getElem?_eq_some_iff.mp h
    simp [hlt]
  · simp [hk, Function.update_of_ne (Ne.symm hk)]

/-! Sums that fit -/

theorem signed64_of_abs_le {x : Int} (h : |x| ≤ maxGain * 2 ^ 14) : signed64 x = some x := by
  have hle := abs_le.mp h
  unfold maxGain at hle
  exact if_pos (by omega)

theorem eq_of_signed64 {x y : Int} (h : signed64 x = some y) : y = x := by
  unfold signed64 at h
  split at h
  · exact (Option.some.inj h).symm
  · cases h

/-! The course of a turn -/

/-- The turn has come so far: it began with these balances, and the nodes that it saw were given
this. -/
structure Swept (nodes : List Node) (w : Sweep) (before given : Nat → Int) (seen : Finset Nat) :
    Prop where
  level : Level maxGain nodes.length before
  next_le : w.next ≤ nodes.length
  seen_lt : ∀ i ∈ seen, i < w.next
  given_nonneg : ∀ i, 0 ≤ given i
  given_le : ∀ i, given i ≤ maxGain
  given_eq_zero : ∀ i ∉ seen, given i = 0
  balance_eq : ∀ i, balanceAt nodes i = before i + given i
  total_eq : w.total = ∑ i ∈ seen, given i
  eq_empty_of_none : w.leader = none → seen = ∅
  leads : ∀ j best, w.leader = some (j, best) →
    j ∈ seen ∧ best = balanceAt nodes j ∧ ∀ i ∈ seen, balanceAt nodes i ≤ best

namespace Swept
variable {w : Sweep} {before given : Nat → Int} {seen : Finset Nat}

theorem start (h : Level maxGain nodes.length (balanceAt nodes)) :
    Swept nodes {} (balanceAt nodes) 0 ∅ where
  level := h
  next_le := Nat.zero_le _
  seen_lt := nofun
  given_nonneg _ := le_rfl
  given_le _ := maxGain_nonneg
  given_eq_zero _ _ := rfl
  balance_eq _ := (add_zero _).symm
  total_eq := rfl
  eq_empty_of_none _ := rfl
  leads := nofun

theorem subset_range (h : Swept nodes w before given seen) : seen ⊆ Finset.range nodes.length :=
  fun i hi => Finset.mem_range.mpr (Nat.lt_of_lt_of_le (h.seen_lt i hi) h.next_le)

/-- A node that is not admitted is passed over. -/
theorem pass (h : Swept nodes w before given seen) (hi : nodes[w.next]? = some n) :
    Swept nodes { w with next := w.next + 1 } before given seen :=
  { h with
    next_le := (List.getElem?_eq_some_iff.mp hi).1
    seen_lt := fun i hi => Nat.lt_succ_of_lt (h.seen_lt i hi) }

theorem total_nonneg (h : Swept nodes w before given seen) : 0 ≤ w.total := by
  rw [h.total_eq]
  exact Finset.sum_nonneg fun i _ => h.given_nonneg i

/-- A turn hands out the largest gain to each node at most. -/
theorem total_le (h : Swept nodes w before given seen) : w.total ≤ maxGain * nodes.length := by
  have hsum := Finset.sum_le_card_nsmul seen given maxGain fun i _ => h.given_le i
  have hcard := Finset.card_le_card h.subset_range
  rw [Finset.card_range] at hcard
  rw [h.total_eq, mul_comm]
  refine hsum.trans ?_
  rw [nsmul_eq_mul]
  exact mul_le_mul_of_nonneg_right (by exact_mod_cast hcard) maxGain_nonneg

/-- The next node leads, ahead of everybody before it, or who led still does. -/
theorem lead_cases (h : Swept nodes w before given seen) {x best : Int}
    (hlead : w.lead x = some (j, best)) :
    (j = w.next ∧ best = x ∧ ∀ i ∈ seen, balanceAt nodes i ≤ x) ∨
    (w.leader = some (j, best) ∧ x ≤ best) := by
  unfold Sweep.lead at hlead
  cases hl : w.leader with
  | none =>
    simp only [hl] at hlead
    cases hlead
    refine .inl ⟨rfl, rfl, fun i hi => ?_⟩
    rw [h.eq_empty_of_none hl] at hi
    exact absurd hi (Finset.notMem_empty i)
  | some y =>
    obtain ⟨-, hbest, hmax⟩ := h.leads y.1 y.2 hl
    simp only [hl] at hlead
    split at hlead
    · rename_i hlt
      cases hlead
      exact .inl ⟨rfl, rfl, fun i hi => (hmax i hi).trans hlt.le⟩
    · rename_i hge
      cases hlead
      exact .inr ⟨rfl, not_lt.mp hge⟩

theorem not_mem_seen (h : Swept nodes w before given seen) : w.next ∉ seen :=
  fun hmem => Nat.lt_irrefl _ (h.seen_lt _ hmem)

theorem balanceAt_give_self (hi : nodes[w.next]? = some n) :
    balanceAt (nodes.set w.next { n with balance := n.balance + gain n }) w.next =
      n.balance + gain n := by
  rw [balanceAt_set hi, Function.update_self]

theorem balanceAt_give_of_mem (h : Swept nodes w before given seen) (hi : nodes[w.next]? = some n)
    {i : Nat} (hmem : i ∈ seen) :
    balanceAt (nodes.set w.next { n with balance := n.balance + gain n }) i =
      balanceAt nodes i := by
  have hne : i ≠ w.next := fun heq => h.not_mem_seen (heq ▸ hmem)
  rw [balanceAt_set hi, Function.update_of_ne hne]

/-- Of the nodes seen, the next one included, who leads then has the highest balance. -/
theorem leads_give (h : Swept nodes w before given seen) (hi : nodes[w.next]? = some n) {k : Nat}
    {best : Int} (hlead : w.lead (n.balance + gain n) = some (k, best)) :
    k ∈ insert w.next seen ∧
      best = balanceAt (nodes.set w.next { n with balance := n.balance + gain n }) k ∧
      ∀ i ∈ insert w.next seen,
        balanceAt (nodes.set w.next { n with balance := n.balance + gain n }) i ≤ best := by
  have hself := balanceAt_give_self hi
  rcases h.lead_cases hlead with ⟨rfl, rfl, hmax⟩ | ⟨hl, hle⟩
  · refine ⟨Finset.mem_insert_self _ _, hself.symm, fun i hmem => ?_⟩
    rcases Finset.mem_insert.mp hmem with rfl | hmem
    · exact hself.le
    · exact (h.balanceAt_give_of_mem hi hmem).trans_le (hmax i hmem)
  · obtain ⟨hk, hbest, hmax⟩ := h.leads k best hl
    refine ⟨Finset.mem_insert_of_mem hk, hbest.trans (h.balanceAt_give_of_mem hi hk).symm,
      fun i hmem => ?_⟩
    rcases Finset.mem_insert.mp hmem with rfl | hmem
    · exact hself.trans_le hle
    · exact (h.balanceAt_give_of_mem hi hmem).trans_le (hmax i hmem)

/-- A node that is admitted gains its effective weight, whatever that is at the moment. -/
theorem give (h : Swept nodes w before given seen) (hi : nodes[w.next]? = some n) :
    Swept (nodes.set w.next { n with balance := n.balance + gain n })
      { next := w.next + 1, total := w.total + gain n, leader := w.lead (n.balance + gain n) }
      before (Function.update given w.next (gain n)) (insert w.next seen) := by
  have hnew := h.not_mem_seen
  constructor
  case level =>
    rw [List.length_set]
    exact h.level
  case next_le =>
    rw [List.length_set]
    exact (List.getElem?_eq_some_iff.mp hi).1
  case seen_lt =>
    intro i hmem
    rcases Finset.mem_insert.mp hmem with rfl | hmem
    · exact Nat.lt_succ_self _
    · exact Nat.lt_succ_of_lt (h.seen_lt i hmem)
  case given_nonneg =>
    intro i
    rw [Function.update_apply]
    split
    · exact gain_nonneg n
    · exact h.given_nonneg i
  case given_le =>
    intro i
    rw [Function.update_apply]
    split
    · exact gain_le n
    · exact h.given_le i
  case given_eq_zero =>
    intro i hmem
    obtain ⟨heq, hmem⟩ := not_or.mp (mt Finset.mem_insert.mpr hmem)
    rw [Function.update_of_ne heq]
    exact h.given_eq_zero i hmem
  case balance_eq =>
    intro i
    rw [balanceAt_set hi]
    by_cases heq : i = w.next
    · subst heq
      have hbefore := h.balance_eq w.next
      rw [h.given_eq_zero _ hnew, add_zero, balanceAt_eq hi] at hbefore
      rw [Function.update_self, Function.update_self, hbefore]
    · rw [Function.update_of_ne heq, Function.update_of_ne heq]
      exact h.balance_eq i
  case total_eq =>
    have hsum : ∑ i ∈ seen, Function.update given w.next (gain n) i = ∑ i ∈ seen, given i := by
      refine Finset.sum_congr rfl fun i hmem => Function.update_of_ne ?_ _ _
      rintro rfl
      exact hnew hmem
    rw [Finset.sum_insert hnew, Function.update_self, hsum, ← h.total_eq]
    exact add_comm _ _
  case eq_empty_of_none =>
    intro hnone
    unfold Sweep.lead at hnone
    split at hnone
    · cases hnone
    · split at hnone <;> cases hnone
  case leads =>
    intro k best hlead
    exact h.leads_give hi hlead

/-- A turn that gave nobody anything ends as it began. -/
theorem level_of_none (h : Swept nodes w before given seen) (hw : w.leader = none) :
    Level maxGain nodes.length (balanceAt nodes) := by
  have heq : balanceAt nodes = before := by
    funext i
    have hempty : seen = ∅ := h.eq_empty_of_none hw
    rw [h.balance_eq, h.given_eq_zero i (hempty ▸ Finset.notMem_empty i), add_zero]
  rw [heq]
  exact h.level

/-- The leader pays. -/
theorem level_of_some (h : Swept nodes w before given seen) {best : Int}
    (hw : w.leader = some (j, best)) (hj : nodes[j]? = some n) :
    Level maxGain nodes.length
      (balanceAt (nodes.set j { n with balance := n.balance - w.total })) := by
  obtain ⟨hmem, hbest, hmax⟩ := h.leads j best hw
  have hpaid : balanceAt (nodes.set j { n with balance := n.balance - w.total }) = paid
      before given seen j := by
    funext i
    rw [balanceAt_set hj, paid, ← h.total_eq, ← h.balance_eq]
    by_cases hi : i = j
    · subst hi
      rw [Function.update_self, if_pos rfl, balanceAt_eq hj]
    · rw [Function.update_of_ne hi, if_neg hi, sub_zero]
  rw [hpaid]
  refine h.level.round h.subset_range hmem h.given_nonneg h.given_le h.given_eq_zero fun i hi => ?_
  rw [← h.balance_eq, ← h.balance_eq, ← hbest]
  exact hmax i hi

/-- The end of a call in the midst of a turn changes none of its balances. -/
theorem settle (h : Swept nodes w before given seen) (k : Nat) (failed : Bool) :
    Swept (nodes.modify k (settle failed)) w before given seen where
  level := by
    rw [List.length_modify]
    exact h.level
  next_le := by
    rw [List.length_modify]
    exact h.next_le
  seen_lt := h.seen_lt
  given_nonneg := h.given_nonneg
  given_le := h.given_le
  given_eq_zero := h.given_eq_zero
  balance_eq i := by
    rw [balanceAt_settle]
    exact h.balance_eq i
  total_eq := h.total_eq
  eq_empty_of_none := h.eq_empty_of_none
  leads j best hw := by
    obtain ⟨hmem, hbest, hmax⟩ := h.leads j best hw
    refine ⟨hmem, hbest.trans (balanceAt_settle _ _).symm, fun i hi => ?_⟩
    rw [balanceAt_settle]
    exact hmax i hi

end Swept

/-! Runs -/

/-- The nodes are the configured ones, with balances that are level whenever nobody holds them. -/
structure Turning.Kept (weight : Nat → UInt32) (ready : List Nat) (s : Turning) : Prop where
  configured : Configured weight ready s.nodes
  level : s.sweep = none → Level maxGain s.nodes.length (balanceAt s.nodes)
  swept : ∀ w, s.sweep = some w → ∃ before given seen, Swept s.nodes w before given seen

namespace Turning
variable {s s' : Turning} {w : Sweep}

theorem kept_ofReady (weight : Nat → UInt32) (ready : List Nat) :
    (ofPicker (.ofReady .weightedRoundRobin weight ready)).Kept weight ready where
  configured := configured_fresh weight ready
  level _ := level_fresh weight ready
  swept := nofun

theorem Kept.idle {nodes : List Node} (hc : Configured weight ready nodes)
    (hl : Level maxGain nodes.length (balanceAt nodes)) : Kept weight ready { nodes } :=
  ⟨hc, fun _ => hl, nofun⟩

theorem Kept.held {nodes : List Node} (hc : Configured weight ready nodes)
    {before given : Nat → Int} {seen : Finset Nat} (hs : Swept nodes w before given seen) :
    Kept weight ready { nodes, sweep := some w } :=
  ⟨hc, nofun, fun _ hw => Option.some.inj hw ▸ ⟨before, given, seen, hs⟩⟩

theorem Kept.length_le (h : s.Kept weight ready) (hready : ready.length ≤ 2 ^ 14) :
    maxGain * s.nodes.length ≤ maxGain * 2 ^ 14 := by
  rw [h.configured.length_eq]
  exact mul_le_mul_of_nonneg_left (by exact_mod_cast hready) maxGain_nonneg

/-- With so few nodes no sum of a look fails. -/
theorem Kept.look (h : s.Kept weight ready) (hready : ready.length ≤ 2 ^ 14) (hw : s.sweep = some w)
    (hi : s.nodes[w.next]? = some n) (admitted : Bool) :
    ∃ w' n', w.look admitted n = some (w', n') ∧
      Kept weight ready { nodes := s.nodes.set w.next n', sweep := some w' } := by
  obtain ⟨before, given, seen, hs⟩ := h.swept w hw
  have hmost := h.length_le hready
  cases admitted with
  | false =>
    refine ⟨_, _, rfl, ?_⟩
    have hsame : s.nodes.set w.next n = s.nodes := by
      obtain ⟨hlt, rfl⟩ := List.getElem?_eq_some_iff.mp hi
      exact List.set_getElem_self hlt
    rw [hsame]
    exact .held h.configured (hs.pass hi)
  | true =>
    have hgive := hs.give hi
    have htotal : signed64 (w.total + gain n) = some (w.total + gain n) := by
      have hle := hgive.total_le
      rw [List.length_set] at hle
      refine signed64_of_abs_le (abs_le.mpr ⟨?_, hle.trans hmost⟩)
      have hge := hgive.total_nonneg
      dsimp only at hge
      unfold maxGain
      omega
    have hbalance : signed64 (n.balance + gain n) = some (n.balance + gain n) := by
      have hlt := (List.getElem?_eq_some_iff.mp hi).1
      have heq := hgive.balance_eq w.next
      rw [balanceAt_set hi, Function.update_self, Function.update_self] at heq
      have hle := hs.level.le hlt
      have hge := hs.level.ge hlt
      rw [heq]
      refine signed64_of_abs_le (abs_le.mpr ⟨?_, ?_⟩)
      · linarith [gain_nonneg n, maxGain_nonneg]
      · linarith [gain_le n]
    refine ⟨_, _, ?_, .held (h.configured.set hi _) hgive⟩
    simp only [Sweep.look, ↓reduceIte, htotal, hbalance, Option.bind_eq_bind,
      Option.bind_some, Option.pure_def]

/-- Nor does one of a choice. -/
theorem Kept.choose (h : s.Kept weight ready) (hready : ready.length ≤ 2 ^ 14)
    (hw : s.sweep = some w) :
    ∃ nodes, w.choose s.nodes = some nodes ∧ Kept weight ready { nodes } := by
  obtain ⟨before, given, seen, hs⟩ := h.swept w hw
  unfold Sweep.choose
  cases hl : w.leader with
  | none => exact ⟨_, rfl, .idle h.configured (hs.level_of_none hl)⟩
  | some x =>
    obtain ⟨hmem, -, -⟩ := hs.leads x.1 x.2 hl
    have hlt := Finset.mem_range.mp (hs.subset_range hmem)
    have hx := List.getElem?_eq_getElem hlt
    have hlevel := hs.level_of_some hl hx
    have hbalance : signed64 (s.nodes[x.1].balance - w.total) = some
        (s.nodes[x.1].balance - w.total) := by
      have heq := balanceAt_set hx (s.nodes[x.1].balance - w.total)
      have hself := congrFun heq x.1
      rw [Function.update_self] at hself
      have hle := hlevel.le hlt
      have hge := hlevel.ge hlt
      rw [hself] at hle hge
      have hmost := h.length_le hready
      refine signed64_of_abs_le (abs_le.mpr ⟨?_, ?_⟩)
      · linarith [maxGain_nonneg]
      · linarith [maxGain_nonneg]
    refine ⟨_, ?_, .idle (h.configured.set hx _) (by rwa [List.length_set])⟩
    simp only [hx, hbalance, Option.bind_eq_bind, Option.bind_some, Option.pure_def]

/-- No step is stuck for a sum that does not fit. -/
theorem Kept.step (h : s.Kept weight ready) (hready : ready.length ≤ 2 ^ 14) (x : Step) :
    ∃ s', s.step x = some s' ∧ s'.Kept weight ready := by
  cases x with
  | start =>
    cases hw : s.sweep with
    | none =>
      refine ⟨{ s with sweep := some {} }, ?_, .held h.configured (.start (h.level hw))⟩
      simp only [Turning.step, hw, Option.isNone_none, ↓reduceIte]
    | some w => exact ⟨s, by simp [Turning.step, hw], h⟩
  | look admitted =>
    cases hw : s.sweep with
    | none => exact ⟨s, by simp only [Turning.step, hw], h⟩
    | some w =>
      cases hi : s.nodes[w.next]? with
      | none => exact ⟨s, by simp only [Turning.step, hw, hi], h⟩
      | some n =>
        obtain ⟨w', n', hlook, hkept⟩ := h.look hready hw hi admitted
        refine ⟨_, ?_, hkept⟩
        simp only [Turning.step, hw, hi, hlook, Option.bind_eq_bind,
          Option.bind_some, Option.pure_def]
  | choose =>
    cases hw : s.sweep with
    | none => exact ⟨s, by simp only [Turning.step, hw], h⟩
    | some w =>
      by_cases hlt : w.next < s.nodes.length
      · exact ⟨s, by simp only [Turning.step, hw, hlt, ↓reduceIte], h⟩
      · obtain ⟨nodes, hchoose, hkept⟩ := h.choose hready hw
        refine ⟨_, ?_, hkept⟩
        simp only [Turning.step, hw, hlt, ↓reduceIte, hchoose,
          Option.bind_eq_bind, Option.bind_some, Option.pure_def]
  | settle k failed =>
    refine ⟨_, rfl, h.configured.settle k failed, fun hw => ?_, fun w hw => ?_⟩
    · have hbalance : balanceAt (s.nodes.modify k (settle failed)) = balanceAt s.nodes :=
        funext fun i => balanceAt_settle failed k
      rw [List.length_modify, hbalance]
      exact h.level hw
    · obtain ⟨before, given, seen, hs⟩ := h.swept w hw
      exact ⟨before, given, seen, hs.settle k failed⟩

theorem run_cons (x : Step) (steps : List Step) :
    s.run (x :: steps) = (s.step x).bind (·.run steps) :=
  List.foldlM_cons

/-- Nor does one in a whole run. -/
theorem Kept.run (h : s.Kept weight ready) (hready : ready.length ≤ 2 ^ 14) (steps : List Step) :
    ∃ s', s.run steps = some s' ∧ s'.Kept weight ready := by
  induction steps generalizing s with
  | nil => exact ⟨s, rfl, h⟩
  | cons x rest ih =>
    obtain ⟨s', hstep, hkept⟩ := h.step hready x
    rw [run_cons, hstep]
    exact ih hkept

end Turning

end RemoteCall.Selection.Rotation
