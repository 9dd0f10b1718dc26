import RemoteCall.Selection.Rotation
import Mathlib.Algebra.BigOperators.Intervals
import Mathlib.Algebra.Order.BigOperators.Group.Finset
import Mathlib.Tactic.Linarith

/-! How far balances can drift apart.

Nothing keeps a single balance in bounds round by round: the leader of a round may be deep in debt,
if only such nodes were admitted. What every round keeps is a bound on the balances of any `k` nodes
together, which is quadratic in `k` and so leaves room for one more node to be led by. -/
namespace RemoteCall.Selection.Rotation
variable {most : Int} {n : Nat} {balance given : Nat → Int} {seen T : Finset Nat} {j : Nat}

/-- The balances sum to zero, and those of any `k` nodes to at most `most` for each pair of one of
them and one of the others. -/
structure Level (most : Int) (n : Nat) (balance : Nat → Int) : Prop where
  sum_eq : ∑ i ∈ Finset.range n, balance i = 0
  sum_le : ∀ T ⊆ Finset.range n, ∑ i ∈ T, balance i ≤ most * (T.card * (n - T.card))

/-- The balances after a round in which the nodes that were seen gained what they were given and `j`
paid it all. -/
def paid (balance given : Nat → Int) (seen : Finset Nat) (j i : Nat) : Int :=
  balance i + given i - if i = j then ∑ k ∈ seen, given k else 0

theorem level_zero (h : 0 ≤ most) (hz : ∀ i, balance i = 0) : Level most n balance where
  sum_eq := Finset.sum_eq_zero fun i _ => hz i
  sum_le T hT := by
    rw [Finset.sum_eq_zero fun i _ => hz i]
    have hcard : (T.card : Int) ≤ n := by
      have hle := Finset.card_le_card hT
      rw [Finset.card_range] at hle
      exact_mod_cast hle
    exact mul_nonneg h (mul_nonneg (Int.natCast_nonneg _) (by omega))

/-- What the nodes of a set gain is what those of them that were seen are given. -/
theorem sum_given (hzero : ∀ i ∉ seen, given i = 0) (T : Finset Nat) :
    ∑ i ∈ T, given i = ∑ i ∈ T ∩ seen, given i := by
  refine (Finset.sum_subset Finset.inter_subset_left fun i hi hni => hzero i fun hs => ?_).symm
  exact hni (Finset.mem_inter.mpr ⟨hi, hs⟩)

theorem sum_paid_of_mem (hj : j ∈ T) :
    ∑ i ∈ T, paid balance given seen j i = ∑ i ∈ T, balance i + ∑ i ∈ T,
    given i - ∑ i ∈ seen, given i := by
  simp only [paid, Finset.sum_sub_distrib, Finset.sum_add_distrib,
    Finset.sum_ite_eq', hj, ↓reduceIte]

theorem sum_paid_of_notMem (hj : j ∉ T) :
    ∑ i ∈ T, paid balance given seen j i = ∑ i ∈ T, balance i + ∑ i ∈ T, given i := by
  simp only [paid, Finset.sum_sub_distrib, Finset.sum_add_distrib, Finset.sum_ite_eq',
    hj, ↓reduceIte, sub_zero]

/-- The bound on the nodes that do not pay. Of `k` such nodes the round sees `a`, and none of these
is ahead of `j`; so the bounds on the `k + 1` nodes with `j` and on the `k - a` nodes out of sight,
weighed by `a` and one, bound them together. -/
theorem Level.sum_paid_le (h : Level most n balance) (hseen : seen ⊆ Finset.range n) (hj : j ∈ seen)
    (hle : ∀ i, given i ≤ most) (hlead : ∀ i ∈ seen, balance i + given i ≤ balance j + given j)
    (hT : T ⊆ Finset.range n) (hjT : j ∉ T) :
    ∑ i ∈ T, balance i + ∑ i ∈ T ∩ seen, given i ≤ most * (T.card * (n - T.card)) := by
  have hsplit : ∑ i ∈ T, balance i = ∑ i ∈ T ∩ seen, balance i + ∑ i ∈ T \ seen, balance i :=
    (Finset.sum_inter_add_sum_sdiff T seen balance).symm
  have hcard : T.card = (T ∩ seen).card + (T \ seen).card :=
    (Finset.card_inter_add_card_sdiff T seen).symm
  have hgiven : ∑ i ∈ T ∩ seen, given i ≤ (T ∩ seen).card * most := by
    simpa using Finset.sum_le_card_nsmul (T ∩ seen) given most fun i _ => hle i
  have hled : ∑ i ∈ T ∩ seen, balance i + ∑ i ∈ T ∩ seen, given i ≤
      (T ∩ seen).card * (balance j + given j) := by
    rw [← Finset.sum_add_distrib]
    simpa using Finset.sum_le_card_nsmul (T ∩ seen) (fun i => balance i + given i) _
      fun i hi => hlead i (Finset.mem_inter.mp hi).2
  have hwith : ∑ i ∈ T, balance i + balance j ≤ most * ((T.card + 1) * (n - (T.card + 1))) := by
    have hsub : insert j T ⊆ Finset.range n := Finset.insert_subset (hseen hj) hT
    have hsum := h.sum_le _ hsub
    rw [Finset.sum_insert hjT, Finset.card_insert_of_notMem hjT] at hsum
    push_cast at hsum
    linarith
  have hout := h.sum_le (T \ seen) ((Finset.sdiff_subset).trans hT)
  have hmost := hle j
  generalize (T ∩ seen).card = a at *
  generalize (T \ seen).card = d at *
  generalize ∑ i ∈ T ∩ seen, given i = g at *
  generalize ∑ i ∈ T ∩ seen, balance i = x at *
  generalize ∑ i ∈ T \ seen, balance i = y at *
  have ha : (0 : Int) ≤ a := Int.natCast_nonneg a
  rw [hsplit] at hwith ⊢
  rw [hcard] at hwith ⊢
  push_cast at hwith ⊢
  refine le_of_mul_le_mul_left ?_ (show (0 : Int) < a + 1 by omega)
  have h₁ := mul_le_mul_of_nonneg_left hwith ha
  have h₂ := mul_le_mul_of_nonneg_left hmost ha
  have h₃ := mul_le_mul_of_nonneg_left hgiven ha
  linarith

/-- A round keeps balances level, whichever nodes it sees and whatever it gives them. -/
theorem Level.round (h : Level most n balance) (hseen : seen ⊆ Finset.range n) (hj : j ∈ seen)
    (hge : ∀ i, 0 ≤ given i) (hle : ∀ i, given i ≤ most) (hzero : ∀ i ∉ seen, given i = 0)
    (hlead : ∀ i ∈ seen, balance i + given i ≤ balance j + given j) :
    Level most n (paid balance given seen j) where
  sum_eq := by
    rw [sum_paid_of_mem (hseen hj), h.sum_eq, sum_given hzero,
      Finset.inter_eq_right.mpr hseen, zero_add, sub_self]
  sum_le T hT := by
    by_cases hjT : j ∈ T
    · rw [sum_paid_of_mem hjT, sum_given hzero]
      have hsub : ∑ i ∈ T ∩ seen, given i ≤ ∑ i ∈ seen, given i :=
        Finset.sum_le_sum_of_subset_of_nonneg Finset.inter_subset_right fun i _ _ => hge i
      linarith [h.sum_le T hT]
    · rw [sum_paid_of_notMem hjT, sum_given hzero]
      exact h.sum_paid_le hseen hj hle hlead hT hjT

/-- No balance is more than all the others can owe. -/
theorem Level.le (h : Level most n balance) (hj : j < n) : balance j ≤ most * (n - 1) := by
  have hsum := h.sum_le {j} (by simpa using hj)
  simpa using hsum

/-- The others together bound a node from below. -/
theorem Level.ge (h : Level most n balance) (hj : j < n) : -(most * (n - 1)) ≤ balance j := by
  have hmem : j ∈ Finset.range n := Finset.mem_range.mpr hj
  have hsum := h.sum_le ((Finset.range n).erase j) (Finset.erase_subset _ _)
  rw [Finset.sum_erase_eq_sub hmem, h.sum_eq, Finset.card_erase_of_mem hmem,
    Finset.card_range] at hsum
  rw [Nat.cast_sub (by omega)] at hsum
  push_cast at hsum
  linarith

end RemoteCall.Selection.Rotation
