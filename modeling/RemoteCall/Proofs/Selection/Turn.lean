import RemoteCall.Proofs.Selection.Level

/-! What one turn does to the nodes.

The nodes that are admitted gain their effective weights, the first of those that are then highest
is chosen, and it pays what all of them gained. Everything else about the nodes stays. -/
namespace RemoteCall.Selection.Rotation
variable {weight : Nat → UInt32} {ready : List Nat} {admits : Nat → Bool}
  {nodes after : List Node} {n : Node}
  {i j : Nat}

/-- What is read off the node at a position; nothing past the last one. -/
def valueAt (f : Node → Int) (nodes : List Node) (i : Nat) : Int := (nodes[i]?.map f).getD 0

def balanceAt (nodes : List Node) (i : Nat) : Int := valueAt Node.balance nodes i

def fresh (weight : Nat → UInt32) (ready : List Nat) : List Node :=
  ready.map fun e => { endpoint := e, weight := weight e, effective := weight e }

theorem forall_mem_fresh {weight : Nat → UInt32} {ready : List Nat} : ∀ n ∈ fresh weight ready,
    n.endpoint ∈ ready ∧ n.weight = weight n.endpoint ∧ n.effective = n.weight ∧ n.balance = 0 := by
  intro n hn
  obtain ⟨e, he, rfl⟩ := List.mem_map.mp hn
  exact ⟨he, rfl, rfl, rfl⟩

def share (admits : Nat → Bool) (n : Node) : Int := if admits n.endpoint then gain n else 0

theorem valueAt_eq {f : Node → Int} (h : nodes[i]? = some n) : valueAt f nodes i = f n := by
  rw [valueAt, h]
  rfl

theorem balanceAt_eq (h : nodes[i]? = some n) : balanceAt nodes i = n.balance := valueAt_eq h

theorem sum_valueAt (f : Node → Int) (nodes : List Node) :
    ∑ i ∈ Finset.range nodes.length, valueAt f nodes i = (nodes.map f).sum := by
  induction nodes with
  | nil => rfl
  | cons n rest ih =>
    rw [List.length_cons, Finset.sum_range_succ', List.map_cons, List.sum_cons, ← ih, add_comm]
    rfl

theorem sum_balanceAt (nodes : List Node) :
    ∑ i ∈ Finset.range nodes.length, balanceAt nodes i = (nodes.map Node.balance).sum :=
    sum_valueAt _ _

/-! Gains -/

def maxGain : Int := 2 ^ 32 - 1

theorem maxGain_nonneg : 0 ≤ maxGain := by decide

theorem gain_nonneg (n : Node) : 0 ≤ gain n := Int.natCast_nonneg _

theorem gain_le (n : Node) : gain n ≤ maxGain := by
  have hlt := n.effective.toNat_lt
  unfold gain maxGain
  omega

theorem one_le_gain (h : 0 < n.effective) : 1 ≤ gain n := by
  have hnat : 0 < n.effective.toNat := UInt32.lt_iff_toNat_lt.mp h
  unfold gain
  omega

theorem share_nonneg (n : Node) : 0 ≤ share admits n := by
  unfold share
  split
  · exact gain_nonneg n
  · exact le_rfl

theorem share_le (n : Node) : share admits n ≤ maxGain := by
  unfold share
  split
  · exact gain_le n
  · exact maxGain_nonneg

theorem valueAt_share_nonneg (i : Nat) : 0 ≤ valueAt (share admits) nodes i := by
  unfold valueAt
  cases nodes[i]? with
  | none => exact le_rfl
  | some n => exact share_nonneg n

theorem valueAt_share_le (i : Nat) : valueAt (share admits) nodes i ≤ maxGain := by
  unfold valueAt
  cases nodes[i]? with
  | none => exact maxGain_nonneg
  | some n => exact share_le n

theorem total_eq_sum : total admits nodes = (nodes.map (share admits)).sum := by
  unfold total
  induction nodes with
  | nil => rfl
  | cons n rest ih =>
    rw [List.map_cons, List.sum_cons, ← ih, List.filter_cons, share]
    split
    · rfl
    · rw [zero_add]

theorem credit_eq_map : credit admits nodes = nodes.map fun n =>
    { n with balance := n.balance + share admits n } := by
  unfold credit share
  apply List.map_congr_left
  intro n _
  split
  · rfl
  · rw [add_zero]

/-! The leader -/

/-- Nobody leads just if nobody is admitted. -/
theorem leader?_eq_none_iff : leader? admits nodes = none ↔ ∀ n ∈ nodes,
    admits n.endpoint = false := by
  rw [leader?, Option.map_eq_none_iff, ← Option.not_isSome_iff_eq_none,
    List.isSome_maxOn?_iff, not_not, List.filter_eq_nil_iff]
  constructor
  · intro h n hn
    obtain ⟨i, hi⟩ := List.mem_iff_getElem?.mp hn
    simpa using h (n, i) (List.mk_mem_zipIdx_iff_getElem?.mpr hi)
  · intro h x hx
    have hx := List.mem_iff_getElem?.mpr ⟨_, List.mk_mem_zipIdx_iff_getElem?.mp hx⟩
    simpa using h _ hx

/-- The leader is admitted, and no admitted node has more than it. -/
theorem leader?_eq_some (h : leader? admits nodes = some j) :
    ∃ n, nodes[j]? = some n ∧ admits n.endpoint = true ∧
      ∀ (i : Nat) (m : Node), nodes[i]? = some m → admits m.endpoint = true →
      m.balance ≤ n.balance := by
  obtain ⟨⟨n, j'⟩, hmax, rfl⟩ := Option.map_eq_some_iff.mp h
  obtain ⟨hmem, hadmits⟩ := List.mem_filter.mp (List.maxOn?_mem hmax)
  refine ⟨n, List.mk_mem_zipIdx_iff_getElem?.mp hmem, hadmits, fun i m hi hm => ?_⟩
  have hmem' : (m, i) ∈ nodes.zipIdx.filter fun n => admits n.1.endpoint :=
    List.mem_filter.mpr ⟨List.mk_mem_zipIdx_iff_getElem?.mpr hi, hm⟩
  have hle := List.le_apply_get_maxOn?_of_mem (f := fun n : Node × Nat => n.1.balance) hmem'
  simpa only [hmax, Option.get_some] using hle

/-! Turns -/

/-- A turn chooses someone unless nobody is admitted. -/
theorem turn_eq_none_iff : turn admits nodes = none ↔ ∀ n ∈ nodes, admits n.endpoint = false := by
  rw [turn, Option.map_eq_none_iff, leader?_eq_none_iff, credit_eq_map, List.forall_mem_map]

/-- Everything that a turn does. -/
theorem turn_eq_some (h : turn admits nodes = some (j, after)) :
    ∃ n, nodes[j]? = some n ∧ admits n.endpoint = true ∧
      (∀ (i : Nat) (m : Node), nodes[i]? = some m → admits m.endpoint = true →
        m.balance + gain m ≤ n.balance + gain n) ∧
      after = nodes.mapIdx fun i m =>
        { m with
          balance := m.balance + share admits m - if i = j then total admits nodes else 0 } := by
  obtain ⟨j', hleader, heq⟩ := Option.map_eq_some_iff.mp h
  obtain ⟨rfl, rfl⟩ := Prod.mk.inj heq
  obtain ⟨c, hc, hadmits, hmax⟩ := leader?_eq_some hleader
  have hcredit (i : Nat) : (credit admits nodes)[i]? =
      nodes[i]?.map fun m => { m with balance := m.balance + share admits m } := by
    rw [credit_eq_map, List.getElem?_map]
  rw [hcredit] at hc
  obtain ⟨n, hn, rfl⟩ := Option.map_eq_some_iff.mp hc
  refine ⟨n, hn, hadmits, fun i m hi hm => ?_, ?_⟩
  · have hle := hmax i { m with balance := m.balance + share admits m }
      (by rw [hcredit, hi]; rfl) hm
    simpa only [share, hm, hadmits, ↓reduceIte] using hle
  · apply List.ext_getElem?
    intro i
    rw [List.getElem?_modify, hcredit, List.getElem?_mapIdx]
    cases nodes[i]? with
    | none => rfl
    | some m => by_cases hi : j' = i <;> simp [hi, eq_comm]

/-- A turn gives to all, and takes the total from the one that it chooses. -/
theorem balanceAt_turn (h : turn admits nodes = some (j, after)) (i : Nat) :
    balanceAt after i = balanceAt nodes i + valueAt (share admits) nodes i -
      if i = j then total admits nodes else 0 := by
  obtain ⟨n, hn, -, -, rfl⟩ := turn_eq_some h
  unfold balanceAt valueAt
  rw [List.getElem?_mapIdx]
  cases hi : nodes[i]? with
  | some m => rfl
  | none =>
    have hne : i ≠ j := by
      rintro rfl
      rw [hi] at hn
      cases hn
    simp [hne]

theorem length_turn (h : turn admits nodes = some (j, after)) : after.length = nodes.length := by
  obtain ⟨-, -, -, -, rfl⟩ := turn_eq_some h
  exact List.length_mapIdx

theorem level_fresh (weight : Nat → UInt32) (ready : List Nat) :
    Level maxGain (fresh weight ready).length (balanceAt (fresh weight ready)) := by
  refine level_zero maxGain_nonneg fun i => ?_
  unfold balanceAt valueAt fresh
  rw [List.getElem?_map]
  cases ready[i]? <;> rfl

/-- Turns keep balances level. -/
theorem Level.turn (hl : Level maxGain nodes.length (balanceAt nodes))
    (h : turn admits nodes = some (j, after)) :
    Level maxGain after.length (balanceAt after) := by
  obtain ⟨n, hn, hadmits, hmax, -⟩ := turn_eq_some h
  let seen := (Finset.range nodes.length).filter fun i => ∃ m, nodes[i]? = some m ∧
    admits m.endpoint = true
  have hseen : seen ⊆ Finset.range nodes.length := Finset.filter_subset _ _
  have hmem {i : Nat} : i ∈ seen ↔ ∃ m, nodes[i]? = some m ∧ admits m.endpoint = true := by
    refine Finset.mem_filter.trans (and_iff_right_of_imp ?_)
    rintro ⟨m, hm, -⟩
    exact Finset.mem_range.mpr (List.getElem?_eq_some_iff.mp hm).1
  have hzero (i : Nat) (hi : i ∉ seen) : valueAt (share admits) nodes i = 0 := by
    unfold valueAt
    cases hm : nodes[i]? with
    | none => rfl
    | some m =>
      have hnot : ¬admits m.endpoint = true := fun ha => hi (hmem.mpr ⟨m, hm, ha⟩)
      simp [share, hnot]
  have htotal : total admits nodes = ∑ i ∈ seen, valueAt (share admits) nodes i := by
    rw [total_eq_sum, ← sum_valueAt, sum_given hzero, Finset.inter_eq_right.mpr hseen]
  have hpaid : balanceAt after = paid (balanceAt nodes) (valueAt (share admits) nodes) seen j := by
    funext i
    rw [balanceAt_turn h, paid, htotal]
  rw [hpaid, length_turn h]
  refine hl.round hseen (hmem.mpr ⟨n, hn, hadmits⟩) valueAt_share_nonneg
    valueAt_share_le hzero fun i hi => ?_
  obtain ⟨m, hm, ha⟩ := hmem.mp hi
  rw [balanceAt_eq hm, balanceAt_eq hn, valueAt_eq hm, valueAt_eq hn, share, share,
    if_pos ha, if_pos hadmits]
  exact hmax i m hm ha

/-! The end of a call -/

@[simp]
theorem endpoint_settle (failed : Bool) (n : Node) : (settle failed n).endpoint = n.endpoint := by
  unfold settle
  split <;> rfl

@[simp]
theorem weight_settle (failed : Bool) (n : Node) : (settle failed n).weight = n.weight := by
  unfold settle
  split <;> rfl

@[simp]
theorem balance_settle (failed : Bool) (n : Node) : (settle failed n).balance = n.balance := by
  unfold settle
  split <;> rfl

/-- The effective weight goes down by one and stops at zero, or up by one and stops at the weight.
-/
theorem toNat_effective_settle (failed : Bool) (n : Node) :
    (settle failed n).effective.toNat =
      if failed then n.effective.toNat - 1
      else if n.effective < n.weight then n.effective.toNat + 1 else n.effective.toNat := by
  have hone : (1 : UInt32).toNat = 1 := rfl
  cases failed with
  | true =>
    change (if n.effective == 0 then 0 else n.effective - 1).toNat = n.effective.toNat - 1
    by_cases h : n.effective = 0
    · rw [h]
      rfl
    · have hne : n.effective.toNat ≠ 0 := fun hz => h (UInt32.toNat_inj.mp hz)
      rw [if_neg (by simpa using h), UInt32.toNat_sub_of_le _ _
        (UInt32.le_iff_toNat_le.mpr (by omega)), hone]
  | false =>
    change (if n.effective < n.weight then n.effective + 1 else n.effective).toNat = _
    rw [if_neg Bool.false_ne_true]
    split
    · rename_i h
      have hlt := UInt32.lt_iff_toNat_lt.mp h
      have hmax := n.weight.toNat_lt
      rw [UInt32.toNat_add, hone, Nat.mod_eq_of_lt (by omega)]
    · rfl

/-- The end of a call raises no effective weight above the weight. -/
theorem effective_settle_le (failed : Bool) {n : Node} (h : n.effective ≤ n.weight) :
    (settle failed n).effective ≤ n.weight := by
  rw [UInt32.le_iff_toNat_le, toNat_effective_settle]
  have hle := UInt32.le_iff_toNat_le.mp h
  split
  · omega
  · split
    · rename_i hlt
      exact UInt32.lt_iff_toNat_lt.mp hlt
    · exact hle

theorem balanceAt_settle (failed : Bool) (k : Nat) :
    balanceAt (nodes.modify k (settle failed)) i = balanceAt nodes i := by
  unfold balanceAt valueAt
  rw [List.getElem?_modify]
  cases nodes[i]? with
  | none => rfl
  | some n => by_cases h : k = i <;> simp [h]

/-! What stays of a node -/

/-- The nodes are those of the ready endpoints, none with an effective weight above its weight. -/
def Configured (weight : Nat → UInt32) (ready : List Nat) (nodes : List Node) : Prop :=
  List.Forall₂ (fun e n => n.endpoint = e ∧ n.weight = weight e ∧ n.effective ≤ weight e)
    ready nodes

theorem configured_fresh (weight : Nat → UInt32) (ready : List Nat) : Configured weight ready
    (fresh weight ready) := by
  unfold Configured fresh
  rw [List.forall₂_map_right_iff, List.forall₂_same]
  exact fun e _ => ⟨rfl, rfl, UInt32.le_refl _⟩

theorem Configured.length_eq (h : Configured weight ready nodes) : nodes.length = ready.length :=
  (List.Forall₂.length_eq h).symm

theorem Configured.modify (h : Configured weight ready nodes) {f : Node → Node}
    (hf : ∀ n : Node, n.effective ≤ n.weight →
      (f n).endpoint = n.endpoint ∧ (f n).weight = n.weight ∧ (f n).effective ≤ n.weight)
    (i : Nat) : Configured weight ready (nodes.modify i f) := by
  unfold Configured at h ⊢
  induction h generalizing i with
  | nil =>
    rw [List.modify_nil]
    exact .nil
  | @cons e n _ _ hn hrest ih =>
    cases i with
    | zero =>
      obtain ⟨he, hw, hle⟩ := hn
      obtain ⟨he', hw', hle'⟩ := hf n (hw ▸ hle)
      exact .cons ⟨he'.trans he, hw'.trans hw, hw ▸ hle'⟩ hrest
    | succ i => exact .cons hn (ih i)

theorem Configured.settle (h : Configured weight ready nodes) (i : Nat) (failed : Bool) :
    Configured weight ready (nodes.modify i (settle failed)) :=
  h.modify (fun n hn => ⟨endpoint_settle failed n, weight_settle failed n,
    effective_settle_le failed hn⟩) i

theorem Configured.turn (h : Configured weight ready nodes)
    (hturn : turn admits nodes = some (j, after)) : Configured weight ready after := by
  obtain ⟨j', -, heq⟩ := Option.map_eq_some_iff.mp hturn
  obtain ⟨-, rfl⟩ := Prod.mk.inj heq
  have hcredit : Configured weight ready (credit admits nodes) := by
    unfold Configured
    rw [credit_eq_map, List.forall₂_map_right_iff]
    exact h
  exact hcredit.modify (f := fun n => { n with balance := n.balance - total admits nodes })
    (fun n hn => ⟨rfl, rfl, hn⟩) j'

theorem Configured.mem (h : Configured weight ready nodes) (hn : n ∈ nodes) :
    n.endpoint ∈ ready ∧ n.weight = weight n.endpoint ∧ n.effective ≤ n.weight := by
  unfold Configured at h
  induction h with
  | nil => cases hn
  | @cons e m _ _ hm _ ih =>
    cases hn with
    | head =>
      obtain ⟨rfl, hw, hle⟩ := hm
      exact ⟨List.mem_cons_self, hw, hw ▸ hle⟩
    | tail _ hn =>
      obtain ⟨he, hrest⟩ := ih hn
      exact ⟨List.mem_cons_of_mem e he, hrest⟩

/-- The node of a ready endpoint weighs what that does. -/
theorem Configured.exists_node (h : Configured weight ready nodes) {e : Nat}
    (he : ready[i]? = some e) : ∃ n, nodes[i]? = some n ∧ n.weight = weight e := by
  unfold Configured at h
  induction h generalizing i with
  | nil => cases he
  | @cons _ n _ _ hn _ ih =>
    cases i with
    | zero =>
      obtain rfl := Option.some.inj he
      exact ⟨n, rfl, hn.2.1⟩
    | succ i => exact ih he

end RemoteCall.Selection.Rotation
