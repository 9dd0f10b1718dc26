import RemoteCall.Proofs.Selection.Sweep
import RemoteCall.Selection.Draw
import RemoteCall.Selection.Selector

/-! Choices in proportion to weights, draw by draw.

Among the numbers from one to the total each item has as many of its own as it weighs, one behind
the other in the order of the items. As long as the total leaves the sign bit alone no number on the
way does not fit. -/
namespace RemoteCall.Selection
variable {α : Type} {items : List α} {a : α} {draw : Nat}

section Scan
variable {weight : α → Nat}

/-- Every number up to the total chooses an item, and one of some weight. -/
theorem exists_scan (hpos : 0 < draw) (hle : draw ≤ (items.map weight).sum) :
    ∃ a ∈ items, 0 < weight a ∧ scan weight items draw = some a := by
  induction items generalizing draw with
  | nil => exact absurd (hpos.trans_le hle) (Nat.lt_irrefl 0)
  | cons b rest ih =>
    rw [scan]
    by_cases hb : draw ≤ weight b
    · exact ⟨b, List.mem_cons_self, hpos.trans_le hb, if_pos hb⟩
    · rw [List.map_cons, List.sum_cons] at hle
      have hleft : 0 < draw - weight b := Nat.sub_pos_of_lt (not_le.mp hb)
      obtain ⟨a, ha, hweight, hscan⟩ := ih hleft (by omega)
      exact ⟨a, List.mem_cons_of_mem b ha, hweight, (if_neg hb).trans hscan⟩

/-- Each item is chosen by as many numbers up to the total as it weighs, for every time that it is
listed. -/
theorem countP_scan [DecidableEq α] (weight : α → Nat) (items : List α) (a : α) :
    ((List.range' 1 (items.map weight).sum).countP fun draw => scan weight items draw = some a) =
      items.count a * weight a := by
  induction items with
  | nil => rw [List.count_nil, Nat.zero_mul]; rfl
  | cons b rest ih =>
    -- the numbers of the first item, and those of the others behind them
    have hfirst : ((List.range' 1 (weight b)).countP fun draw =>
        scan weight (b :: rest) draw = some a) =
        if b = a then weight b else 0 := by
      have hscan (draw : Nat) (hdraw : draw ∈ List.range' 1 (weight b)) :
          scan weight (b :: rest) draw = some b := by
        have hmem := List.mem_range'_1.mp hdraw
        exact if_pos (by omega)
      split
      · rename_i hab
        refine (List.countP_eq_length.mpr fun draw hdraw => ?_).trans List.length_range'
        rw [hscan draw hdraw, hab, decide_eq_true rfl]
      · rename_i hab
        refine List.countP_eq_zero.mpr fun draw hdraw => ?_
        rw [hscan draw hdraw]
        simpa using hab
    have hothers : ((List.range' (1 + weight b) (rest.map weight).sum).countP fun draw =>
        scan weight (b :: rest) draw = some a) = rest.count a * weight a := by
      rw [Nat.add_comm 1, ← List.map_add_range', List.countP_map, ← ih]
      refine List.countP_congr fun draw hdraw => ?_
      have hmem := List.mem_range'_1.mp hdraw
      have hscan : scan weight (b :: rest) (weight b + draw) = scan weight rest draw := by
        rw [scan, if_neg (by omega), Nat.add_sub_cancel_left]
      rw [Function.comp_apply, hscan]
    rw [List.map_cons, List.sum_cons, ← List.range'_append_1, List.countP_append, hfirst,
      hothers, List.count_cons]
    by_cases hab : b = a
    · subst hab
      simp only [↓reduceIte, beq_self_eq_true, Nat.add_mul, Nat.one_mul, Nat.add_comm]
    · simp only [hab, ↓reduceIte, beq_iff_eq, Nat.add_zero, Nat.zero_add]

end Scan

namespace Draw
variable {weight : α → UInt32}

/-- So few weights of 32 bits never sum to 2⁶³. -/
theorem sum_weight_lt (weight : α → UInt32) (hfew : items.length < 2 ^ 31) :
    (items.map fun a => (weight a).toNat).sum < 2 ^ 63 := by
  have hmost : (items.map fun a => (weight a).toNat).sum ≤ items.length * (2 ^ 32 - 1) := by
    have hle := List.sum_le_card_nsmul (items.map fun a => (weight a).toNat)
      (2 ^ 32 - 1) fun x hx => by
      obtain ⟨a, -, rfl⟩ := List.mem_map.mp hx
      exact Nat.le_pred_of_lt (weight a).toNat_lt
    rwa [List.length_map, nsmul_eq_mul, Nat.cast_id] at hle
  omega

theorem foldlM_unsigned64 {sum : Nat}
    (h : sum + (items.map fun a => (weight a).toNat).sum < 2 ^ 63) :
    items.foldlM (fun sum a => unsigned64 (sum + (weight a).toNat)) sum =
      some (sum + (items.map fun a => (weight a).toNat).sum) := by
  induction items generalizing sum with
  | nil => rfl
  | cons a rest ih =>
    rw [List.map_cons, List.sum_cons, ← Nat.add_assoc] at h
    have hfits : sum + (weight a).toNat < UInt64.size := by
      have hsize : UInt64.size = 2 ^ 64 := rfl
      omega
    rw [List.foldlM_cons, unsigned64, if_pos hfits, List.map_cons, List.sum_cons, ← Nat.add_assoc]
    exact ih h

theorem total_eq (h : (items.map fun a => (weight a).toNat).sum < 2 ^ 63) :
    total weight items = some (items.map fun a => (weight a).toNat).sum := by
  rw [total, foldlM_unsigned64 (by rwa [Nat.zero_add]), Nat.zero_add]

theorem reread_eq (h : draw < 2 ^ 63) : reread draw = draw := by
  have hsize : UInt64.size = 2 ^ 64 := rfl
  exact Int.bmod_eq_of_le (by omega) (by omega)

/-- Counting down with a sign is the scan, and no difference does not fit. -/
theorem countDown_eq (hpos : 0 < draw) (hlt : draw < 2 ^ 63) :
    countDown weight items draw = some (scan (fun a => (weight a).toNat) items draw) := by
  induction items generalizing draw with
  | nil => rfl
  | cons a rest ih =>
    have hweight := (weight a).toNat_lt
    have hfits : Rotation.signed64 ((draw : Int) - (weight a).toNat) = some
        ((draw : Int) - (weight a).toNat) :=
      if_pos (by omega)
    rw [countDown, hfits, scan]
    by_cases hle : draw ≤ (weight a).toNat
    · have hover : (draw : Int) - (weight a).toNat ≤ 0 := by omega
      simp only [Option.bind_eq_bind, Option.bind_some, hover, hle, ↓reduceIte, Option.pure_def]
    · have hleft : (draw : Int) - (weight a).toNat = ((draw - (weight a).toNat : Nat) : Int) := by
        omega
      have hmore : ¬((draw - (weight a).toNat : Nat) : Int) ≤ 0 := by omega
      simp only [Option.bind_eq_bind, Option.bind_some, hleft, hmore, hle, ↓reduceIte]
      exact ih (by omega) (by omega)

/-- No sum fails, and a draw up to the total chooses where the running total reaches it. -/
theorem choose_eq (hfew : items.length < 2 ^ 31) (hne : items ≠ [])
    (hpos : 0 < draw) (hle : draw ≤ (items.map fun a => (weight a).toNat).sum) :
    choose weight items draw = (scan (fun a => (weight a).toNat) items draw).map .ok := by
  have hsum := sum_weight_lt weight hfew
  obtain ⟨a, -, -, hscan⟩ := exists_scan hpos hle
  have hnonempty : items.isEmpty = false := by simpa using hne
  have htotal : ((items.map fun a => (weight a).toNat).sum == 0) = false := by
    simpa using (hpos.trans_le hle).ne'
  rw [choose, hnonempty, total_eq hsum, reread_eq (hle.trans_lt hsum),
    countDown_eq hpos (hle.trans_lt hsum), hscan]
  simp only [Bool.false_eq_true, ↓reduceIte, Option.bind_eq_bind, Option.bind_some,
    htotal, Option.pure_def, Option.map_some]

theorem choose_of_nil (draw : Nat) : choose weight [] draw = some (.error noConnection) := rfl

theorem choose_of_weightless (hne : items ≠ [])
    (hzero : (items.map fun a => (weight a).toNat).sum = 0) (draw : Nat) :
    choose weight items draw = some (.error noWeight) := by
  have hnonempty : items.isEmpty = false := by simpa using hne
  rw [choose, hnonempty, total_eq (by omega), hzero]
  rfl

/-! The picker -/

theorem totalWeight_eq_sum (v : Picker.View) (candidates : List Nat) :
    v.totalWeight candidates = (candidates.map v.weight).sum := by
  rw [Picker.View.totalWeight, List.sum_eq_foldr, List.foldr_map]

/-- What a weighted random picker comes to, whatever it draws. -/
theorem pick_weightedRandom (v : Picker.View) (ready : List Nat)
    (hfew : (ready.filter v.admits).length < 2 ^ 31) :
    some ((Picker.weightedRandom ready).pick v) =
      (choose (fun e => (v.endpoint e).inst.effectiveWeight) (ready.filter v.admits)
        (v.draw % v.totalWeight (ready.filter v.admits) + 1)).map
          (·.map fun e => (.weightedRandom ready, ⟨e, .none⟩)) := by
  have htotal := totalWeight_eq_sum v (ready.filter v.admits)
  rw [Picker.pick]
  by_cases hne : ready.filter v.admits = []
  · rw [hne]
    rfl
  have hnonempty : ¬(ready.filter v.admits).isEmpty = true := by simpa using hne
  by_cases hzero : v.totalWeight (ready.filter v.admits) = 0
  · rw [choose_of_weightless hne (htotal.symm.trans hzero), hzero]
    simp only [hnonempty, beq_self_eq_true, ↓reduceIte]
    rfl
  · have hle : v.draw % v.totalWeight (ready.filter v.admits) + 1 ≤ v.totalWeight
        (ready.filter v.admits) :=
      Nat.mod_lt _ (Nat.pos_of_ne_zero hzero)
    have hpos := Nat.succ_pos (v.draw % v.totalWeight (ready.filter v.admits))
    obtain ⟨e, -, -, hscan⟩ := exists_scan hpos (hle.trans_eq htotal)
    rw [choose_eq hfew hne hpos (hle.trans_eq htotal)]
    change some _ = (Option.map _ (scan v.weight _ _)).map _
    simp only [hnonempty, hzero, beq_iff_eq, Bool.false_eq_true, ↓reduceIte, hscan]
    rfl

/-- Whatever the candidates weigh, as long as they are fewer than `2 ^ 31` no number on the way
needs more than 64 bits. Each number up to the total weight chooses a candidate of some weight, and
each candidate is chosen by as many of them as it weighs, for every time that it is listed; without
weight or without candidates the choice is refused. A picker does the same with the number it draws.
-/
theorem drawn_in_proportion (v : Picker.View) (ready : List Nat)
    (hfew : (ready.filter v.admits).length < 2 ^ 31) :
    let candidates := ready.filter v.admits
    let weight (e : Nat) := (v.endpoint e).inst.effectiveWeight
    let total := (candidates.map fun e => (weight e).toNat).sum
    (candidates = [] → ∀ draw, choose weight candidates draw = some (.error noConnection)) ∧
      (candidates ≠ [] → total = 0 →
        ∀ draw, choose weight candidates draw = some (.error noWeight)) ∧
      (∀ draw, 0 < draw → draw ≤ total →
        ∃ e ∈ candidates, 0 < weight e ∧ choose weight candidates draw = some (.ok e)) ∧
      (∀ e,
        ((List.range' 1 total).countP fun draw => choose weight candidates draw = some (.ok e)) =
          candidates.count e * (weight e).toNat) ∧
      ∀ draw, some ((Picker.weightedRandom ready).pick { v with draw }) =
        (choose weight candidates (draw % total + 1)).map
          (·.map fun e => (.weightedRandom ready, ⟨e, .none⟩)) := by
  intro candidates weight total
  have hchoose {draw : Nat} (hpos : 0 < draw) (hle : draw ≤ total) :
      choose weight candidates draw =
        (scan (fun e => (weight e).toNat) candidates draw).map .ok := by
    obtain ⟨a, ha, -⟩ := exists_scan hpos hle
    exact choose_eq hfew (List.ne_nil_of_mem ha) hpos hle
  refine ⟨fun hnil draw => ?_, choose_of_weightless, fun draw hpos hle => ?_,
    fun e => ?_, fun draw => ?_⟩
  · rw [hnil]
    exact choose_of_nil draw
  · obtain ⟨e, he, hweight, hscan⟩ := exists_scan hpos hle
    refine ⟨e, he, UInt32.lt_iff_toNat_lt.mpr hweight, ?_⟩
    rw [hchoose hpos hle, hscan, Option.map_some]
  · refine Eq.trans ?_ (countP_scan (fun e => (weight e).toNat) candidates e)
    refine List.countP_congr fun draw hdraw => ?_
    have hmem := List.mem_range'_1.mp hdraw
    rw [hchoose (by omega) (by omega)]
    cases scan (fun e => (weight e).toNat) candidates draw <;> simp
  · have hpick := pick_weightedRandom { v with draw } ready hfew
    rwa [totalWeight_eq_sum] at hpick

/-- Weights 0, 2, none and 0, and one that is not admitted. -/
theorem drawn_in_proportion_beside_zeros :
    let inst (weight : Option UInt32) (group : String) : Instance :=
      { name := "svc", address := "h", weight, group := some group }
    let endpoints : List Endpoint := [⟨inst (some 0) "a", 0, 0, 0⟩, ⟨inst (some 2) "a", 1, 0, 0⟩,
      ⟨inst (some 7) "b", 2, 0, 0⟩, ⟨inst none "a", 3, 0, 0⟩, ⟨inst (some 0) "a", 4, 0, 0⟩]
    let s : Selector := { Selector.ofMode .weightedRandom (some Filter.byGroup) with endpoints }
    let v := s.view { service := "svc", method := "M", group := some "a" } 0 0
    let weight (e : Nat) := (v.endpoint e).inst.effectiveWeight
    let ready : List Nat := [0, 1, 2, 3, 4]
    (ready.filter v.admits).length < 2 ^ 31 ∧ ready.filter v.admits = [0, 1, 3, 4] ∧
      (List.range' 1 3).map (choose weight [0, 1, 3, 4]) =
        [some (.ok 1), some (.ok 1), some (.ok 3)] ∧
      ((List.range' 1 3).countP fun draw => choose weight [0, 1, 3, 4] draw = some (.ok 1)) = 2 ∧
      ((List.range' 1 3).countP fun draw => choose weight [0, 1, 3, 4] draw = some (.ok 4)) = 0 ∧
      (Picker.weightedRandom ready).pick { v with draw := 5 } =
        .ok (.weightedRandom ready, ⟨3, .none⟩) := by
  intro inst endpoints s v weight ready
  have hcandidates : ready.filter v.admits = [0, 1, 3, 4] := by decide
  obtain ⟨-, -, -, hcount, hpick⟩ := drawn_in_proportion v ready (by rw [hcandidates]; decide)
  rw [hcandidates] at hcount hpick ⊢
  refine ⟨by decide, rfl, by decide, hcount 1, hcount 4, ?_⟩
  exact Option.some.inj ((hpick 5).trans (by decide))

end Draw
end RemoteCall.Selection
