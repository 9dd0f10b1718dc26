import RemoteCall.Proofs.Selection.Selector
import RemoteCall.Proofs.Selection.Turn
import RemoteCall.Selection.Action

/-! A selector in use.

Between two changes of the ready set only the picker moves: whoever was admitted to a call is
admitted to it later. So a run can be told from the moves of the picker alone. -/
namespace RemoteCall.Selection
variable {s s' : Selector} {call : Call} {now : Int} {draw : Nat} {pick : Pick}
  {nodes after : List Node}

namespace Rotation

/-- A turn depends on who of its nodes is admitted alone. -/
theorem turn_congr {admits admits' : Nat → Bool}
    (h : ∀ n ∈ nodes, admits n.endpoint = admits' n.endpoint) :
    turn admits nodes = turn admits' nodes := by
  have hcredit : credit admits nodes = credit admits' nodes := by
    refine List.map_congr_left fun n hn => ?_
    rw [h n hn]
  have htotal : total admits nodes = total admits' nodes := by
    unfold total
    rw [List.filter_congr h]
  have hleader : leader? admits (credit admits' nodes) = leader? admits'
      (credit admits' nodes) := by
    unfold leader?
    congr 2
    refine List.filter_congr fun x hx => ?_
    have hmem := List.mem_iff_getElem?.mpr ⟨_, List.mk_mem_zipIdx_iff_getElem?.mp hx⟩
    rw [credit_eq_map] at hmem
    obtain ⟨n, hn, heq⟩ := List.mem_map.mp hmem
    rw [← heq]
    exact h n hn
  rw [turn, turn, hcredit, htotal, hleader]

end Rotation

namespace Selector

/-- The selector may have picked and learnt, and is otherwise the same. -/
structure Kept (s s' : Selector) : Prop extends s.Same s' where
  mode_eq : s'.mode = s.mode
  filter_eq : s'.filter = s.filter
  generation_eq : s'.generation = s.generation

theorem Kept.refl (s : Selector) : s.Kept s := ⟨.refl s, rfl, rfl, rfl⟩

theorem Kept.trans {s'' : Selector} (h : s.Kept s') (h' : s'.Kept s'') : s.Kept s'' where
  toSame := h.toSame.trans h'.toSame
  mode_eq := h'.mode_eq.trans h.mode_eq
  filter_eq := h'.filter_eq.trans h.filter_eq
  generation_eq := h'.generation_eq.trans h.generation_eq

theorem Kept.admits_eq (h : s.Kept s') : s'.admits = s.admits := by
  funext call e
  unfold admits
  rw [h.filter_eq, (h.endpoint_eq e).1]

theorem kept_pick (h : s.pick call now draw = .ok (s', pick)) : s.Kept s' := by
  refine ⟨same_pick h, ?_, ?_, ?_⟩ <;>
  · obtain ⟨⟨picker, choice⟩, -, h⟩ := bind_eq_ok.mp h
    obtain ⟨rfl, -⟩ := Prod.mk.inj (Except.ok.inj h)
    split <;> rfl

theorem kept_finish (s : Selector) (pick : Pick) (failed : Bool) (now : Int) :
    s.Kept (s.finish pick failed now) := by
  refine ⟨same_finish pick failed now, ?_, ?_, ?_⟩ <;>
  · unfold finish
    split
    · rfl
    · rfl
    · rfl
    · split
      · split <;> rfl
      · rfl

theorem step_of_ok (h : s.pick call now draw = .ok (s', pick)) :
    s.step (.pick call now draw) = s' := by
  change ((s.pick call now draw).toOption.map (·.1)).getD s = s'
  rw [h]
  rfl

theorem step_of_error {e : Error} (h : s.pick call now draw = .error e) :
    s.step (.pick call now draw) = s := by
  change ((s.pick call now draw).toOption.map (·.1)).getD s = s
  rw [h]
  rfl

/-- Whatever is picked and learnt, the selector is otherwise the same. -/
theorem kept_step (s : Selector) (a : Action) : s.Kept (s.step a) := by
  cases a with
  | finish pick failed now => exact kept_finish s pick failed now
  | pick call now draw =>
    cases h : s.pick call now draw with
    | error e =>
      rw [step_of_error h]
      exact .refl s
    | ok x =>
      rw [step_of_ok h]
      exact kept_pick h

theorem run_cons (s : Selector) (a : Action) (rest : List Action) :
    s.run (a :: rest) = (s.step a).run rest := rfl

theorem kept_run (s : Selector) (actions : List Action) : s.Kept (s.run actions) := by
  induction actions generalizing s with
  | nil => exact .refl s
  | cons a rest ih => exact (kept_step s a).trans (ih _)

/-- A pick that leaves everything as it is when its call has ended does so any number of times. -/
theorem run_again {failed : Bool} (hpick : s.pick call now draw = .ok (s, pick))
    (hfinish : s.finish pick failed now = s) (k : Nat) :
    s.run (List.replicate k [.pick call now draw, .finish pick failed now]).flatten = s ∧
      s.picks (List.replicate k [.pick call now draw, .finish pick failed now]).flatten =
        List.replicate k (.ok pick) := by
  have hstep : s.step (.pick call now draw) = s := step_of_ok hpick
  have hend : s.step (.finish pick failed now) = s := hfinish
  induction k with
  | zero => exact ⟨rfl, rfl⟩
  | succ k ih =>
    rw [List.replicate_succ, List.flatten_cons, List.replicate_succ]
    constructor
    · rw [List.cons_append, run_cons, hstep, List.singleton_append, run_cons, hend]
      exact ih.1
    · rw [List.cons_append, picks, hstep, List.singleton_append, picks, hend, ih.2, hpick]
      rfl

/-! Weighted rotation -/

def weightOf (s : Selector) (e : Nat) : UInt32 := (s.endpoint e).inst.effectiveWeight

theorem picker_rebuild (h : s.mode = .weightedRoundRobin) (ready : List Nat) :
    (s.rebuild ready).picker = .weightedRoundRobin (Rotation.fresh s.weightOf ready) := by
  unfold rebuild
  rw [h]
  rfl

/-- A pick is a turn of the rotation. -/
theorem pick_weightedRoundRobin (h : s.picker = .weightedRoundRobin nodes) (call : Call) (now : Int)
    (draw : Nat) :
    s.pick call now draw = match Rotation.turn (s.admits call) nodes with
      | some (i, after) => .ok ({ s with picker := .weightedRoundRobin after },
          ⟨⟨(nodes[i]?.map (·.endpoint)).getD 0, .weight i⟩, s.generation⟩)
      | none => .error noConnection := by
  unfold pick
  rw [h]
  simp only [Picker.pick]
  change (match Rotation.turn (s.admits call) nodes with
    | some (i, after) => _
    | none => _ : Result _) >>= _ = _
  cases Rotation.turn (s.admits call) nodes with
  | none => rfl
  | some x => rfl

/-- The end of a call settles one node, or none if it was sent by another picker. -/
theorem picker_finish (h : s.picker = .weightedRoundRobin nodes) (pick : Pick) (failed : Bool)
    (now : Int) :
    ∃ after, (s.finish pick failed now).picker = .weightedRoundRobin after ∧
      (after = nodes ∨ ∃ i, after = nodes.modify i (Rotation.settle failed)) := by
  unfold finish
  split
  · exact ⟨nodes, h, .inl rfl⟩
  · exact ⟨nodes, h, .inl rfl⟩
  · exact ⟨nodes, h, .inl rfl⟩
  · rename_i i _
    rw [h]
    dsimp only
    split
    · exact ⟨_, rfl, .inr ⟨i, rfl⟩⟩
    · exact ⟨nodes, h, .inl rfl⟩

end Selector
end RemoteCall.Selection
