import RemoteCall.Proofs.Selection.Interleaving
import RemoteCall.Proofs.Selection.Shares

/-! Endpoints that weigh nothing.

A turn gives such a node nothing, and its balance stays at zero. When it leads nobody has more; but
the balances sum to what was handed out, so nothing was, and all of them are zero. The node that
comes first leads then, whatever it weighs, and has nothing to pay. What keeps calls away from it is
the effective weights of the others, which failures use up. -/
namespace RemoteCall.Selection
namespace Rotation
variable {weight : Nat → UInt32} {ready : List Nat} {admits : Nat → Bool} {nodes : List Node}
  {n m : Node} {i j k : Nat}
  {failed : Bool} {reserve : Int}

/-! Ties -/

/-- All balances are zero, and nobody is admitted before the node at a position, which is. -/
structure Tied (admits : Nat → Bool) (nodes : List Node) (i : Nat) : Prop where
  balance_eq : ∀ n ∈ nodes, n.balance = 0
  admitted : ∃ n, nodes[i]? = some n ∧ admits n.endpoint = true
  first : ∀ j < i, ∀ n, nodes[j]? = some n → admits n.endpoint = false

/-- Who is not admitted or weighs nothing owes nothing and is owed nothing. -/
def Clear (admits : Nat → Bool) (nodes : List Node) : Prop :=
  ∀ n ∈ nodes, (admits n.endpoint = true → n.weight = 0) → n.balance = 0

theorem Tied.sum_eq (h : Tied admits nodes i) : (nodes.map Node.balance).sum = 0 :=
  List.sum_eq_zero (List.forall_mem_map.mpr h.balance_eq)

/-- The leader is ahead of everybody admitted before it. -/
theorem lt_of_leader? (h : leader? admits nodes = some i) (hlt : j < i) (hj : nodes[j]? = some m)
    (ha : admits m.endpoint = true) : m.balance < balanceAt nodes i := by
  -- from the end of the nodes, as the leader is sought from their start
  induction nodes using List.reverseRecOn with
  | nil => cases h
  | append_singleton nodes n ih =>
    obtain ⟨c, hc, -, -⟩ := leader?_eq_some h
    have hi : i < nodes.length + 1 := by
      have hi := (List.getElem?_eq_some_iff.mp hc).1
      rwa [List.length_append] at hi
    rw [List.getElem?_append_left (by omega)] at hj
    have hkept (hl : leader? admits nodes = some i) : m.balance < balanceAt (nodes ++ [n]) i := by
      obtain ⟨c, hc, -, -⟩ := leader?_eq_some hl
      rw [Turning.balanceAt_concat (List.getElem?_eq_some_iff.mp hc).1]
      exact ih hl hj
    rw [Turning.leader?_concat] at h
    split at h
    · cases hl : leader? admits nodes with
      | none => exact absurd ha (by simp [leader?_eq_none_iff.mp hl m (List.mem_of_getElem? hj)])
      | some l =>
        simp only [hl] at h
        split at h
        · -- the last node leads, ahead of who led before it
          rename_i hahead
          obtain rfl := Option.some.inj h
          obtain ⟨c, hc, -, hmax⟩ := leader?_eq_some hl
          rw [balanceAt_eq hc] at hahead
          rw [Turning.balanceAt_last]
          exact lt_of_le_of_lt (hmax j m hj ha) hahead
        · obtain rfl := Option.some.inj h
          exact hkept hl
    · exact hkept h

theorem balance_eq_zero_of_nonpos (h : ∀ n ∈ nodes, n.balance ≤ 0)
    (hsum : 0 ≤ (nodes.map Node.balance).sum) : ∀ n ∈ nodes, n.balance = 0 := by
  have hle : ∀ i ∈ Finset.range nodes.length, balanceAt nodes i ≤ 0 := by
    intro i hi
    have hi := List.getElem?_eq_getElem (Finset.mem_range.mp hi)
    rw [balanceAt_eq hi]
    exact h _ (List.mem_of_getElem? hi)
  rw [← sum_balanceAt] at hsum
  have hzero := (Finset.sum_eq_zero_iff_of_nonpos hle).mp (le_antisymm (Finset.sum_nonpos hle) hsum)
  intro n hn
  obtain ⟨i, hi⟩ := List.mem_iff_getElem?.mp hn
  rw [← balanceAt_eq hi]
  exact hzero i (Finset.mem_range.mpr (List.getElem?_eq_some_iff.mp hi).1)

/-- A node that weighs nothing leads only in a tie of all of them, for its place. -/
theorem leader?_iff_of_weight_eq_zero (hclear : Clear admits nodes)
    (hsum : 0 ≤ (nodes.map Node.balance).sum) (hn : nodes[i]? = some n) (hweight : n.weight = 0) :
    leader? admits nodes = some i ↔
    Tied admits nodes i := by
  constructor
  · intro h
    obtain ⟨c, hc, ha, hmax⟩ := leader?_eq_some h
    obtain rfl : n = c := Option.some.inj (hn.symm.trans hc)
    have hzero : n.balance = 0 := hclear n (List.mem_of_getElem? hn) fun _ => hweight
    -- nobody has more than the leader, and together they have nothing less than zero
    have hnonpos : ∀ m ∈ nodes, m.balance ≤ 0 := by
      intro m hm
      by_cases hadmits : admits m.endpoint = true
      · obtain ⟨j, hj⟩ := List.mem_iff_getElem?.mp hm
        exact hzero ▸ hmax j m hj hadmits
      · exact (hclear m hm fun h => absurd h hadmits).le
    have hall := balance_eq_zero_of_nonpos hnonpos hsum
    refine ⟨hall, ⟨n, hn, ha⟩, fun j hj m hm => ?_⟩
    by_contra hadmits
    have hlt := lt_of_leader? h hj hm (by simpa using hadmits)
    rw [hall m (List.mem_of_getElem? hm), balanceAt_eq hn, hzero] at hlt
    exact absurd hlt (lt_irrefl 0)
  · rintro ⟨hall, ⟨c, hc, ha⟩, hfirst⟩
    cases hl : leader? admits nodes with
    | none =>
      rw [leader?_eq_none_iff.mp hl c (List.mem_of_getElem? hc)] at ha
      cases ha
    | some l =>
      obtain ⟨d, hd, hadmits, -⟩ := leader?_eq_some hl
      rcases Nat.lt_trichotomy l i with hlt | rfl | hlt
      · rw [hfirst l hlt d hd] at hadmits
        cases hadmits
      · rfl
      · have hahead := lt_of_leader? hl hlt hc ha
        rw [hall c (List.mem_of_getElem? hc), balanceAt_eq hd,
          hall d (List.mem_of_getElem? hd)] at hahead
        exact absurd hahead (lt_irrefl 0)

/-! Turns at once -/

theorem gain_eq_zero (h : n.effective ≤ n.weight) (hweight : n.weight = 0) : gain n = 0 := by
  have hle := UInt32.le_iff_toNat_le.mp h
  rw [hweight] at hle
  exact congrArg Nat.cast (Nat.le_zero.mp hle)

theorem share_eq_zero (h : n.effective ≤ n.weight) (hn : admits n.endpoint = true → n.weight = 0) :
    share admits n = 0 := by
  unfold share
  split
  · rename_i ha
    exact gain_eq_zero h (hn ha)
  · rfl

theorem total_nonneg (admits : Nat → Bool) (nodes : List Node) : 0 ≤ total admits nodes := by
  rw [total_eq_sum]
  exact List.sum_nonneg (List.forall_mem_map.mpr fun n _ => share_nonneg n)

/-- Together the nodes gain what a round hands out. -/
theorem sum_credit :
    ((credit admits nodes).map Node.balance).sum =
      (nodes.map Node.balance).sum + total admits nodes := by
  rw [credit_eq_map, List.map_map, total_eq_sum, ← List.sum_map_add]
  rfl

theorem Clear.credit (h : Clear admits nodes) (hle : ∀ n ∈ nodes, n.effective ≤ n.weight) :
    Clear admits (credit admits nodes) := by
  unfold Clear
  rw [credit_eq_map, List.forall_mem_map]
  intro n hn hnothing
  have hbalance := h n hn hnothing
  have hshare := share_eq_zero (hle n hn) hnothing
  dsimp only
  rw [hbalance, hshare, add_zero]

/-- A turn over nodes whose effective weights are used up gives nobody anything. -/
theorem credit_of_total_eq_zero (h : total admits nodes = 0) : credit admits nodes = nodes := by
  have hnonneg (i : Nat) (_ : i ∈ Finset.range nodes.length) : 0 ≤ valueAt (share admits) nodes i :=
    valueAt_share_nonneg i
  rw [total_eq_sum, ← sum_valueAt, Finset.sum_eq_zero_iff_of_nonneg hnonneg] at h
  rw [credit_eq_map]
  refine (List.map_congr_left fun n hn => ?_).trans (List.map_id _)
  obtain ⟨i, hi⟩ := List.mem_iff_getElem?.mp hn
  have hshare := h i (Finset.mem_range.mpr (List.getElem?_eq_some_iff.mp hi).1)
  rw [valueAt_eq hi] at hshare
  rw [hshare, add_zero]
  rfl

/-- A node that weighs nothing is chosen just if there is nothing to hand out and it comes first. -/
theorem turn_iff_of_weight_eq_zero (hclear : Clear admits nodes)
    (hle : ∀ n ∈ nodes, n.effective ≤ n.weight) (hsum : (nodes.map Node.balance).sum = 0)
    (hn : nodes[i]? = some n) (hweight : n.weight = 0) :
    (∃ after, turn admits nodes = some (i, after)) ↔ total admits nodes = 0 ∧
    Tied admits nodes i := by
  have hcredited : (credit admits nodes)[i]? = some
      { n with balance := n.balance + share admits n } := by
    rw [credit_eq_map, List.getElem?_map, hn]
    rfl
  have hgiven : ((credit admits nodes).map Node.balance).sum = total admits nodes := by
    rw [sum_credit, hsum, zero_add]
  have hnonneg : 0 ≤ ((credit admits nodes).map Node.balance).sum :=
    hgiven ▸ total_nonneg admits nodes
  have hleader := leader?_iff_of_weight_eq_zero (hclear.credit hle) hnonneg hcredited hweight
  have hturn : (∃ after, turn admits nodes = some (i, after)) ↔
      leader? admits (credit admits nodes) = some i := by
    simp [turn]
  rw [hturn, hleader]
  constructor
  · intro h
    have htotal : total admits nodes = 0 := hgiven.symm.trans h.sum_eq
    rw [credit_of_total_eq_zero htotal] at h
    exact ⟨htotal, h⟩
  · rintro ⟨htotal, h⟩
    rwa [credit_of_total_eq_zero htotal]

/-! Turns among which calls end -/

def Step.isFailure : Step → Bool
  | .settle _ failed => failed
  | _ => false

theorem sum_map_set (f : Node → Int) (hi : nodes[i]? = some n) (m : Node) :
    ((nodes.set i m).map f).sum = (nodes.map f).sum - f n + f m := by
  obtain ⟨hlt, rfl⟩ := List.getElem?_eq_some_iff.mp hi
  rw [List.map_set, List.sum_set', dif_pos (by rwa [List.length_map]), List.getElem_map]
  ring

/-- What a turn would hand out does not depend on balances. -/
theorem total_set (hi : nodes[i]? = some n) (x : Int) :
    total admits (nodes.set i { n with balance := x }) = total admits nodes := by
  have hshare : share admits { n with balance := x } = share admits n := rfl
  rw [total_eq_sum, total_eq_sum, sum_map_set _ hi, hshare, sub_add_cancel]

theorem Clear.set (h : Clear admits nodes) {x : Int}
    (hx : (admits n.endpoint = true → n.weight = 0) → x = 0) :
    Clear admits (nodes.set i { n with balance := x }) := by
  intro m hm hnothing
  rcases List.mem_or_eq_of_mem_set hm with hm | rfl
  · exact h m hm hnothing
  · exact hx hnothing

theorem map_modify_settle {β : Type} {f : Node → β} (hf : ∀ n, f (settle failed n) = f n) :
    (nodes.modify k (settle failed)).map f = nodes.map f := by
  apply List.ext_getElem?
  intro i
  rw [List.getElem?_map, List.getElem?_map, List.getElem?_modify]
  cases nodes[i]? with
  | none => rfl
  | some n => by_cases hk : k = i <;> simp [hk, hf]

theorem Clear.settle (h : Clear admits nodes) (k : Nat) (failed : Bool) :
    Clear admits (nodes.modify k (settle failed)) := by
  have hmap : (nodes.modify k (Rotation.settle failed)).map
      (fun n => (n.endpoint, n.weight, n.balance)) =
      nodes.map fun n => (n.endpoint, n.weight, n.balance) := map_modify_settle fun n => by simp
  intro n hn hnothing
  have hmem := List.mem_map_of_mem (f := fun n => (n.endpoint, n.weight, n.balance)) hn
  rw [hmap] at hmem
  obtain ⟨m, hm, heq⟩ := List.mem_map.mp hmem
  obtain ⟨hendpoint, heq⟩ := Prod.mk.inj heq
  obtain ⟨hweight, hbalance⟩ := Prod.mk.inj heq
  rw [← hbalance]
  exact h m hm (by rwa [hendpoint, hweight])

/-- The end of a call lowers what a node gains by one at most, and only if the call failed. -/
theorem share_le_settle (admits : Nat → Bool) (n : Node) (failed : Bool) :
    share admits n ≤ share admits (settle failed n) + if failed then 1 else 0 := by
  unfold share gain
  rw [endpoint_settle, toNat_effective_settle]
  cases failed with
  | true =>
    simp only [↓reduceIte]
    split <;> omega
  | false =>
    simp only [Bool.false_eq_true, ↓reduceIte]
    split
    · split <;> omega
    · omega

theorem total_cons (n : Node) (nodes : List Node) :
    total admits (n :: nodes) = share admits n + total admits nodes := by
  rw [total_eq_sum, total_eq_sum, List.map_cons, List.sum_cons]

/-- A failure takes one at most of what a turn would hand out; a success takes nothing. -/
theorem total_le_settle (admits : Nat → Bool) (nodes : List Node) (k : Nat) (failed : Bool) :
    total admits nodes ≤ total admits (nodes.modify k (settle failed)) +
    if failed then 1 else 0 := by
  induction nodes generalizing k with
  | nil =>
    rw [List.modify_nil]
    exact le_add_of_nonneg_right (by split <;> decide)
  | cons n rest ih =>
    cases k with
    | zero =>
      rw [List.modify_zero_cons, total_cons, total_cons]
      linarith [share_le_settle admits n failed]
    | succ k =>
      rw [List.modify_succ_cons, total_cons, total_cons]
      linarith [ih k]

namespace Turning
variable {s s' : Turning} {w : Sweep} {steps : List Step} {x : Step}

/-- A pick that looks at a node sees whether it is among those that are admitted. -/
def fits (admits : Nat → Bool) (s : Turning) : Step → Bool
  | .look admitted => (s.sweep.bind fun w => s.nodes[w.next]?).all fun n =>
    admitted == admits n.endpoint
  | _ => true

def goesBy (admits : Nat → Bool) : Turning → List Step → Bool
  | _, [] => true
  | s, x :: rest => s.fits admits x && (s.step x).all fun s' => s'.goesBy admits rest

/-- The leader depends on who the nodes are and on their balances alone. -/
theorem foremost_congr {nodes' : List Node}
    (h : nodes'.map (fun n => (n.endpoint, n.balance)) = nodes.map fun n =>
      (n.endpoint, n.balance)) :
    foremost admits nodes' = foremost admits nodes := by
  induction nodes using List.reverseRecOn generalizing nodes' with
  | nil =>
    rw [List.map_eq_nil_iff.mp h]
  | append_singleton nodes n ih =>
    rw [List.map_append] at h
    obtain ⟨init, last, rfl, hinit, hlast⟩ := List.map_eq_append_iff.mp h
    obtain ⟨m, rfl, hm⟩ := List.map_eq_singleton_iff.mp hlast
    obtain ⟨hendpoint, hbalance⟩ := Prod.mk.inj hm
    have hlength : init.length = nodes.length := by simpa using congrArg List.length hinit
    let w : Sweep := { next := nodes.length, leader := foremost admits nodes }
    rw [foremost_concat (w := w) hlength.symm (ih hinit).symm,
      foremost_concat (w := w) rfl rfl, ih hinit, hendpoint,
      hbalance]

/-- A pick has come so far: the balances sum to what it has handed out, and what it has left to hand
out makes up for what is lacking of a reserve. -/
structure Underway (admits : Nat → Bool) (nodes : List Node) (reserve : Int) (w : Sweep) :
    Prop where
  sum_eq : (nodes.map Node.balance).sum = w.total
  total_nonneg : 0 ≤ w.total
  leader_eq : w.leader = foremost admits (nodes.take w.next)
  reserve_le : reserve ≤ w.total + total admits (nodes.drop w.next)

namespace Underway

theorem start (hsum : (nodes.map Node.balance).sum = 0) (hreserve : reserve ≤ total admits nodes) :
    Underway admits nodes reserve {} where
  sum_eq := hsum
  total_nonneg := le_rfl
  leader_eq := by
    rw [List.take_zero]
    rfl
  reserve_le := by rwa [List.drop_zero, zero_add]

/-- The next node is looked at. -/
theorem look (h : Underway admits nodes reserve w) (hi : nodes[w.next]? = some n) {w' : Sweep}
    {n' : Node} (hlook : w.look (admits n.endpoint) n = some (w', n')) :
    Underway admits (nodes.set w.next n') reserve w' := by
  obtain ⟨rfl, rfl⟩ := look_eq_some hlook
  obtain ⟨hlt, hget⟩ := List.getElem?_eq_some_iff.mp hi
  have hlength : (nodes.take w.next).length = w.next := List.length_take_of_le hlt.le
  constructor
  case sum_eq =>
    rw [sum_map_set _ hi, h.sum_eq]
    ring
  case total_nonneg => exact add_nonneg h.total_nonneg (share_nonneg n)
  case leader_eq =>
    rw [List.take_add_one, List.take_set, List.set_eq_of_length_le hlength.le,
      List.getElem?_set_self hlt,
      Option.toList_some, foremost_concat hlength.symm h.leader_eq, ← h.leader_eq]
  case reserve_le =>
    have hreserve := h.reserve_le
    rw [List.drop_eq_getElem_cons hlt, hget, total_cons] at hreserve
    rw [List.drop_set_of_lt (Nat.lt_succ_self _)]
    linarith

theorem settle (h : Underway admits nodes reserve w) (k : Nat) (failed : Bool) :
    Underway admits (nodes.modify k (settle failed)) (reserve - if failed then 1 else 0) w where
  sum_eq := by
    rw [map_modify_settle (balance_settle failed)]
    exact h.sum_eq
  total_nonneg := h.total_nonneg
  leader_eq := by
    have hsame : foremost admits ((nodes.take w.next).modify k (Rotation.settle failed)) = _ :=
      foremost_congr (map_modify_settle fun n => by simp)
    rw [List.take_modify, hsame]
    exact h.leader_eq
  reserve_le := by
    have hreserve := h.reserve_le
    rcases Nat.lt_or_ge k w.next with hk | hk
    · -- what was read of the node before stays handed out
      have htaken : (0 : Int) ≤ if failed then 1 else 0 := by split <;> decide
      rw [List.drop_modify_of_lt _ _ _ _ hk]
      linarith
    · have hle := total_le_settle admits (nodes.drop w.next) (k - w.next) failed
      rw [List.drop_modify_of_ge _ _ _ _ hk]
      linarith

/-- A pick that has looked at all nodes settles on one that weighs nothing only if it has read no
effective weight. -/
theorem leader_iff_of_weight_eq_zero (h : Underway admits nodes reserve w)
    (hclear : Clear admits nodes) (hend : nodes.length ≤ w.next) (hn : nodes[i]? = some n)
    (hweight : n.weight = 0) :
    (∃ best, w.leader = some (i, best)) ↔ w.total = 0 ∧ Tied admits nodes i := by
  have hleader := h.leader_eq
  rw [List.take_of_length_le hend] at hleader
  have hleads : (∃ best, w.leader = some (i, best)) ↔ leader? admits nodes = some i := by
    rw [hleader]
    simp [foremost]
  rw [hleads, leader?_iff_of_weight_eq_zero hclear (h.sum_eq ▸ h.total_nonneg) hn hweight]
  exact ⟨fun ht => ⟨h.sum_eq.symm.trans ht.sum_eq, ht⟩, fun ht => ht.2⟩

end Underway

/-- The nodes are the configured ones, those that weigh nothing owe nothing, and together the
admitted ones have a reserve of effective weight. -/
structure Steady (weight : Nat → UInt32) (ready : List Nat) (admits : Nat → Bool) (reserve : Int)
    (s : Turning) : Prop where
  configured : Configured weight ready s.nodes
  clear : Clear admits s.nodes
  reserve_le : reserve ≤ total admits s.nodes
  sum_eq : s.sweep = none → (s.nodes.map Node.balance).sum = 0
  underway : ∀ w, s.sweep = some w → Underway admits s.nodes reserve w

theorem Steady.idle (hc : Configured weight ready nodes) (hclear : Clear admits nodes)
    (hreserve : reserve ≤ total admits nodes) (hsum : (nodes.map Node.balance).sum = 0) :
    Steady weight ready admits reserve { nodes } :=
  ⟨hc, hclear, hreserve, fun _ => hsum, nofun⟩

theorem steady_ofReady (weight : Nat → UInt32) (ready : List Nat) (admits : Nat → Bool) :
    (ofPicker (.ofReady .weightedRoundRobin weight ready)).Steady weight ready admits
      (((ready.filter admits).map fun e => (weight e).toNat).sum : Nat) :=
  have hzero (n : Node) (hn : n ∈ fresh weight ready) : n.balance = 0 :=
    (forall_mem_fresh n hn).2.2.2
  .idle (configured_fresh weight ready) (fun n hn _ => hzero n hn)
    (Selector.total_fresh admits weight ready).ge
    (List.sum_eq_zero (List.forall_mem_map.mpr hzero))

namespace Steady

theorem effective_le (h : s.Steady weight ready admits reserve) :
    ∀ n ∈ s.nodes, n.effective ≤ n.weight :=
  fun _ hn => (h.configured.mem hn).2.2

theorem start (h : s.Steady weight ready admits reserve) (hw : s.sweep = none) :
    Steady weight ready admits reserve { s with sweep := some {} } :=
  { h with
    sum_eq := nofun
    underway := fun _ hw' => Option.some.inj hw' ▸ .start (h.sum_eq hw) h.reserve_le }

theorem look (h : s.Steady weight ready admits reserve) (hw : s.sweep = some w)
    (hi : s.nodes[w.next]? = some n) {w' : Sweep} {n' : Node}
    (hlook : w.look (admits n.endpoint) n = some (w', n')) :
    Steady weight ready admits reserve { nodes := s.nodes.set w.next n', sweep := some w' } := by
  have hunderway := (h.underway w hw).look hi hlook
  obtain ⟨-, rfl⟩ := look_eq_some hlook
  have hmem := List.mem_of_getElem? hi
  refine ⟨h.configured.set hi _, h.clear.set fun hnothing => ?_, ?_, nofun, ?_⟩
  · rw [h.clear n hmem hnothing, share_eq_zero (h.effective_le n hmem) hnothing, add_zero]
  · rw [total_set hi]
    exact h.reserve_le
  · intro w₁ hw₁
    exact Option.some.inj hw₁ ▸ hunderway

/-- A choice keeps what is lacking of the reserve in balance. -/
theorem choose (h : s.Steady weight ready admits reserve) (hw : s.sweep = some w)
    (hend : s.nodes.length ≤ w.next) (hchoose : w.choose s.nodes = some nodes) :
    Steady weight ready admits reserve { nodes } := by
  have hunderway := h.underway w hw
  have hleader := hunderway.leader_eq
  rw [List.take_of_length_le hend] at hleader
  unfold Sweep.choose at hchoose
  cases hl : leader? admits s.nodes with
  | none =>
    -- nobody is admitted, so nobody was given anything before either
    rw [hleader, foremost, hl] at hchoose
    obtain rfl := Option.some.inj hchoose
    refine .idle h.configured h.clear h.reserve_le
      (List.sum_eq_zero (List.forall_mem_map.mpr fun n hn => ?_))
    exact h.clear n hn fun ha => absurd ha (by simp [leader?_eq_none_iff.mp hl n hn])
  | some i =>
    obtain ⟨n, hn, ha, -⟩ := leader?_eq_some hl
    rw [foremost, hl] at hleader
    simp only [hleader, Option.map_some, hn] at hchoose
    obtain ⟨balance, hbalance, hchoose⟩ := Option.bind_eq_some_iff.mp hchoose
    obtain rfl := eq_of_signed64 hbalance
    obtain rfl := Option.some.inj hchoose
    refine .idle (h.configured.set hn _) (h.clear.set fun hnothing => ?_) ?_ ?_
    · -- who weighs nothing leads only if there is nothing to pay
      have hties := (hunderway.leader_iff_of_weight_eq_zero h.clear hend hn (hnothing ha)).mp
        ⟨_, hleader⟩
      rw [hties.1, sub_zero, hties.2.balance_eq n (List.mem_of_getElem? hn)]
    · rw [total_set hn]
      exact h.reserve_le
    · rw [sum_map_set _ hn, hunderway.sum_eq]
      ring

/-- The end of a call takes one from the reserve, if it failed. -/
theorem settle (h : s.Steady weight ready admits reserve) (k : Nat) (failed : Bool) :
    Steady weight ready admits (reserve - if failed then 1 else 0)
      { s with nodes := s.nodes.modify k (settle failed) } where
  configured := h.configured.settle k failed
  clear := h.clear.settle k failed
  reserve_le := by
    have hle := total_le_settle admits s.nodes k failed
    have hreserve := h.reserve_le
    linarith
  sum_eq hw := by
    rw [map_modify_settle (balance_settle failed)]
    exact h.sum_eq hw
  underway w hw := (h.underway w hw).settle k failed

/-- A failure takes one of the reserve, and no other step takes any. -/
theorem step (h : s.Steady weight ready admits reserve) (hfits : s.fits admits x = true)
    (hstep : s.step x = some s') :
    s'.Steady weight ready admits (reserve - if x.isFailure then 1 else 0) := by
  have hkept (hx : x.isFailure = false) (hs : s'.Steady weight ready admits reserve) :
      s'.Steady weight ready admits (reserve - if x.isFailure then 1 else 0) := by
    rwa [hx, if_neg Bool.false_ne_true, sub_zero]
  -- what may not come yet leaves the state as it is; all else is a step of the sweep
  cases x with
  | start =>
    refine hkept rfl ?_
    obtain rfl := Option.some.inj hstep
    cases hw : s.sweep with
    | none => exact h.start hw
    | some w => exact h
  | look admitted =>
    refine hkept rfl ?_
    cases hw : s.sweep with
    | none =>
      simp only [Turning.step, hw] at hstep
      exact Option.some.inj hstep ▸ h
    | some w =>
      cases hi : s.nodes[w.next]? with
      | none =>
        simp only [Turning.step, hw, hi] at hstep
        exact Option.some.inj hstep ▸ h
      | some n =>
        obtain rfl : admitted = admits n.endpoint := by simpa [fits, hw, hi] using hfits
        simp only [Turning.step, hw, hi] at hstep
        obtain ⟨⟨w', n'⟩, hlook, hstep⟩ := Option.bind_eq_some_iff.mp hstep
        obtain rfl := Option.some.inj hstep
        exact h.look hw hi hlook
  | choose =>
    refine hkept rfl ?_
    cases hw : s.sweep with
    | none =>
      simp only [Turning.step, hw] at hstep
      exact Option.some.inj hstep ▸ h
    | some w =>
      simp only [Turning.step, hw] at hstep
      split at hstep
      · exact Option.some.inj hstep ▸ h
      · rename_i hend
        obtain ⟨nodes, hchoose, hstep⟩ := Option.bind_eq_some_iff.mp hstep
        obtain rfl := Option.some.inj hstep
        exact h.choose hw (Nat.not_lt.mp hend) hchoose
  | settle k failed =>
    obtain rfl := Option.some.inj hstep
    exact h.settle k failed

/-- In a run each failure takes one from the reserve at most. -/
theorem run (h : s.Steady weight ready admits reserve) (hgoes : s.goesBy admits steps = true)
    (hrun : s.run steps = some s') :
    s'.Steady weight ready admits (reserve - (steps.countP Step.isFailure : Nat)) := by
  induction steps generalizing s reserve with
  | nil =>
    obtain rfl := Option.some.inj hrun
    rwa [List.countP_nil, Nat.cast_zero, sub_zero]
  | cons x rest ih =>
    obtain ⟨hfits, hgoes⟩ := Bool.and_eq_true_iff.mp hgoes
    rw [run_cons] at hrun
    obtain ⟨s₁, hstep, hrun⟩ := Option.bind_eq_some_iff.mp hrun
    rw [hstep, Option.all_some] at hgoes
    have hrest := ih (h.step hfits hstep) hgoes hrun
    rw [List.countP_cons, Nat.cast_add, ← sub_sub, sub_right_comm]
    push_cast
    exact hrest

end Steady

/-- As long as the same endpoints are admitted to all picks, whenever calls end: an endpoint that
weighs nothing is picked exactly when the pick has read no effective weight, all balances are zero,
and nobody is admitted before it. While fewer calls have failed than the admitted endpoints weigh
together, it is never picked. -/
theorem drained_unpicked
    (hrun : (ofPicker (.ofReady .weightedRoundRobin weight ready)).run steps = some s)
    (hgoes : (ofPicker (.ofReady .weightedRoundRobin weight ready)).goesBy admits steps = true)
    {e : Nat} (he : ready[i]? = some e) (hweight : weight e = 0) :
    (∀ w, s.sweep = some w → s.nodes.length ≤ w.next →
      ((∃ best, w.leader = some (i, best)) ↔ w.total = 0 ∧ Tied admits s.nodes i)) ∧
    (s.sweep = none →
      ((∃ after, turn admits s.nodes = some (i, after)) ↔ total admits s.nodes = 0 ∧
        Tied admits s.nodes i)) ∧
    (steps.countP Step.isFailure < ((ready.filter admits).map fun e => (weight e).toNat).sum →
      (∀ w best, s.sweep = some w → s.nodes.length ≤ w.next → w.leader ≠ some (i, best)) ∧
      (s.sweep = none → ∀ after, turn admits s.nodes ≠ some (i, after))) := by
  have hs := (steady_ofReady weight ready admits).run hgoes hrun
  obtain ⟨n, hn, hn'⟩ := hs.configured.exists_node he
  have hnothing : n.weight = 0 := hn'.trans hweight
  have hunderway (w : Sweep) (hw : s.sweep = some w) (hend : s.nodes.length ≤ w.next) :=
    (hs.underway w hw).leader_iff_of_weight_eq_zero hs.clear hend hn hnothing
  have hidle (hw : s.sweep = none) :=
    turn_iff_of_weight_eq_zero hs.clear hs.effective_le (hs.sum_eq hw) hn hnothing
  refine ⟨hunderway, hidle, fun hfew =>
    ⟨fun w best hw hend hleader => ?_, fun hw after hturn => ?_⟩⟩
  · have htotal := ((hunderway w hw hend).mp ⟨best, hleader⟩).1
    have hreserve := (hs.underway w hw).reserve_le
    rw [List.drop_eq_nil_of_le hend, htotal] at hreserve
    have hnone : total admits [] = 0 := rfl
    omega
  · have htotal := ((hidle hw).mp ⟨after, hturn⟩).1
    have hreserve := hs.reserve_le
    omega

/-- Two endpoints of weight 1 behind one of weight 0, and calls that end in the middle of a pick: a
call over the second one succeeds when the pick has read its zero, and a call over the third one
fails before the pick comes to it. One of them has effective weight at any moment, and yet the pick
settles on the first one. -/
theorem drained_unpicked_between :
    let weight : Nat → UInt32 := fun e => if e = 0 then 0 else 1
    let admits : Nat → Bool := fun _ => true
    let pick : List Step := [.start, .look true, .look true, .look true, .choose]
    let steps : List Step :=
      pick ++ pick ++ pick ++ pick ++ [.settle 1 true, .start, .look true, .look true,
        .settle 1 false, .settle 2 true, .look true]
    let start := ofPicker (.ofReady .weightedRoundRobin weight [0, 1, 2])
    let w : Sweep := { next := 3, total := 0, leader := some (0, 0) }
    let s : Turning := { nodes := [⟨0, 0, 0, 0⟩, ⟨1, 1, 0, 1⟩, ⟨2, 1, 0, 0⟩], sweep := some w }
    start.run steps = some s ∧ start.goesBy admits steps = true ∧
      [0, 1, 2][0]? = some 0 ∧ weight 0 = 0 ∧
      total admits s.nodes = 1 ∧ w.total = 0 ∧ Tied admits s.nodes 0 := by
  intro weight admits pick steps start w s
  have hrun : start.run steps = some s := by decide +kernel
  have hgoes : start.goesBy admits steps = true := by decide +kernel
  obtain ⟨hunderway, -, -⟩ := drained_unpicked (i := 0) hrun hgoes rfl rfl
  obtain ⟨htotal, hties⟩ := (hunderway w rfl (Nat.le_refl _)).mp ⟨0, rfl⟩
  exact ⟨hrun, hgoes, rfl, rfl, by decide, htotal, hties⟩

end Turning
end Rotation

namespace Selector

/-- One failure uses up the weight of the second endpoint. The next call goes to the first one,
which weighs nothing, and so do all calls after it, whether they succeed or fail. -/
theorem drained_picked :
    let inst (weight : UInt32) : Instance :=
      { name := "svc", address := "h", weight := some weight }
    let s : Selector := { Selector.ofMode .weightedRoundRobin none with
      endpoints := [{ inst := inst 0, pool := 0 }, { inst := inst 1, pool := 1 }] }
    let call : Call := { service := "svc", method := "M" }
    let picked : Pick := ⟨⟨1, .weight 1⟩, 1⟩
    let drained : Pick := ⟨⟨0, .weight 0⟩, 1⟩
    let history : List Action := [.pick call 0 0, .finish picked true 0]
    let failed := (s.rebuild [0, 1]).run history
    s.weightOf 0 = 0 ∧ s.weightOf 1 = 1 ∧ (∀ e, s.admits call e = true) ∧
      (s.rebuild [0, 1]).picks history = [.ok picked] ∧
      ∀ ending k,
        failed.picks (List.replicate k [.pick call 0 0, .finish drained ending 0]).flatten =
          List.replicate k (.ok drained) := by
  intro inst s call picked drained history failed
  let nodes : List Node := [⟨0, 0, 0, 0⟩, ⟨1, 1, 0, 0⟩]
  have hpicker : failed.picker = .weightedRoundRobin nodes := by decide +kernel
  have hgeneration : failed.generation = 1 := (kept_run (s.rebuild [0, 1]) history).generation_eq
  have hsame : { failed with picker := .weightedRoundRobin nodes } = failed := by rw [← hpicker]
  have hpick : failed.pick call 0 0 = .ok (failed, drained) := by
    have hturn : Rotation.turn (failed.admits call) nodes = some (0, nodes) := by decide +kernel
    rw [pick_weightedRoundRobin hpicker, hturn]
    dsimp only
    rw [hsame, hgeneration]
    rfl
  have hfinish (ending : Bool) : failed.finish drained ending 0 = failed := by
    have hsettled : nodes.modify 0 (Rotation.settle ending) = nodes := by cases ending <;> rfl
    have hcurrent : (drained.generation == failed.generation) = true := by rw [hgeneration]; rfl
    unfold finish
    simp only [drained, hpicker]
    rw [if_pos hcurrent, hsettled, hsame]
  exact ⟨by decide, by decide, fun _ => rfl, by decide +kernel,
    fun ending k => (run_again hpick (hfinish ending) k).2⟩

end Selector
end RemoteCall.Selection
