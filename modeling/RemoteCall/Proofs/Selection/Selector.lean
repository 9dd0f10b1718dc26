import RemoteCall.Proofs.Data.Outcome
import RemoteCall.Selection.Selector

/-! What choices leave as it was.

Choices and the ends of calls count at endpoints. They change neither which endpoints are ready nor
which instances these are for, so who is admitted to a call stays the same. -/
namespace RemoteCall.Selection
variable {p p' : Picker} {v : Picker.View} {c : Choice} {s s' : Selector} {e x : Nat}
  {f : Endpoint → Endpoint}

theorem Picker.ready_ofReady (mode : SelectMode) (weight : Nat → UInt32) (ready : List Nat) :
    (Picker.ofReady mode weight ready).ready = ready := by
  cases mode with
  | weightedRoundRobin =>
    rw [Picker.ofReady, Picker.ready, List.map_map]
    exact (List.map_congr_left fun _ _ => rfl).trans (List.map_id ready)
  | _ => rfl

theorem Rotation.endpoints_modify {nodes : List Node} {f : Node → Node}
    (hf : ∀ n, (f n).endpoint = n.endpoint) (i : Nat) :
    (nodes.modify i f).map (·.endpoint) = nodes.map (·.endpoint) := by
  apply List.ext_getElem?
  intro j
  rw [List.getElem?_map, List.getElem?_map, List.getElem?_modify]
  cases nodes[j]? with
  | none => rfl
  | some n => by_cases h : i = j <;> simp [h, hf]

/-- A turn leaves the endpoints where they are. -/
theorem Rotation.endpoints_turn {admits : Nat → Bool} {nodes after : List Node} {i : Nat}
    (h : turn admits nodes = some (i, after)) :
    after.map (·.endpoint) = nodes.map (·.endpoint) := by
  obtain ⟨j, -, hj⟩ := Option.map_eq_some_iff.mp h
  obtain ⟨-, rfl⟩ := Prod.mk.inj hj
  have hcredit : (credit admits nodes).map (·.endpoint) = nodes.map (·.endpoint) := by
    rw [credit, List.map_map]
    apply List.map_congr_left
    intro n _
    rw [Function.comp_apply]
    split <;> rfl
  rw [← hcredit]
  apply endpoints_modify
  exact fun _ => rfl

/-- A choice is made among the ready endpoints and leaves them ready. -/
theorem Picker.ready_pick (h : p.pick v = .ok (p', c)) : p'.ready = p.ready := by
  cases p with
  | weightedRoundRobin nodes =>
    simp only [Picker.pick] at h
    split at h
    · rename_i i after hturn
      cases h
      exact Rotation.endpoints_turn hturn
    · cases h
  | weightedRandom ready =>
    simp only [Picker.pick] at h
    split at h
    · cases h
    · split at h
      · cases h
      · split at h <;> cases h
        rfl
  | random ready | leastActive ready | fastest ready | roundRobin ready cursor =>
    simp only [Picker.pick] at h
    split at h <;> cases h
    rfl

/-- What is counted at an endpoint leaves it the endpoint of its instance, over its pool. -/
def Counts (f : Endpoint → Endpoint) : Prop := ∀ x, (f x).inst = x.inst ∧ (f x).pool = x.pool

theorem Selector.endpoint_modify (hf : Counts f) :
    ((s.modify e f).endpoint x).inst = (s.endpoint x).inst ∧
    ((s.modify e f).endpoint x).pool = (s.endpoint x).pool := by
  unfold Selector.endpoint Selector.modify
  rw [List.getElem?_modify]
  cases s.endpoints[x]? with
  | none => exact ⟨rfl, rfl⟩
  | some y =>
    by_cases h : e = x
    · simpa [h] using hf y
    · simp [h]

theorem Selector.endpoint_modify_self (he : e < s.endpoints.length) :
    (s.modify e f).endpoint e = f (s.endpoint e) := by
  unfold endpoint modify
  rw [List.getElem?_modify_eq, List.getElem?_eq_getElem he]
  rfl

theorem Selector.endpoint_modify_ne (h : e ≠ x) : (s.modify e f).endpoint x = s.endpoint x := by
  unfold endpoint modify
  rw [List.getElem?_modify_ne _ _ h]

/-- The endpoints of a selector and which of them are ready, whatever is counted at them. -/
structure Selector.Same (s s' : Selector) : Prop where
  ready_eq : s'.ready = s.ready
  length_eq : s'.endpoints.length = s.endpoints.length
  endpoint_eq : ∀ x, (s'.endpoint x).inst = (s.endpoint x).inst ∧
    (s'.endpoint x).pool = (s.endpoint x).pool

theorem Selector.same_of_endpoints (hready : s'.ready = s.ready)
    (hends : s'.endpoints = s.endpoints) : s.Same s' where
  ready_eq := hready
  length_eq := congrArg List.length hends
  endpoint_eq x := by
    rw [Selector.endpoint, hends]
    exact ⟨rfl, rfl⟩

theorem Selector.Same.refl (s : Selector) : s.Same s := same_of_endpoints rfl rfl

theorem Selector.Same.trans {s'' : Selector} (h : s.Same s') (h' : s'.Same s'') : s.Same s'' where
  ready_eq := h'.ready_eq.trans h.ready_eq
  length_eq := h'.length_eq.trans h.length_eq
  endpoint_eq x := ⟨(h'.endpoint_eq x).1.trans (h.endpoint_eq x).1,
    (h'.endpoint_eq x).2.trans (h.endpoint_eq x).2⟩

theorem Selector.same_modify (hf : Counts f) : s.Same (s.modify e f) where
  ready_eq := rfl
  length_eq := List.length_modify _ _ _
  endpoint_eq _ := endpoint_modify hf

theorem Selector.same_pick {call : Call} {now : Int} {draw : Nat} {pick : Pick}
    (h : s.pick call now draw = .ok (s', pick)) : s.Same s' := by
  obtain ⟨⟨picker, choice⟩, hp, h⟩ := bind_eq_ok.mp h
  obtain ⟨rfl, -⟩ := Prod.mk.inj (Except.ok.inj h)
  have hs : s.Same { s with picker } := same_of_endpoints (Picker.ready_pick hp) rfl
  cases choice.notice with
  | active e =>
    have hm : ({ s with picker } : Selector).Same
        (({ s with picker } : Selector).modify e Endpoint.enter) :=
      same_modify fun _ => ⟨rfl, rfl⟩
    exact hs.trans hm
  | _ => exact hs

theorem Selector.same_finish (pick : Pick) (failed : Bool) (now : Int) :
    s.Same (s.finish pick failed now) := by
  unfold Selector.finish
  split
  · exact same_of_endpoints rfl rfl
  · exact same_modify fun _ => ⟨rfl, rfl⟩
  · exact same_modify fun _ => ⟨rfl, rfl⟩
  · split
    · rename_i nodes hp
      split
      · refine same_of_endpoints ?_ rfl
        change (nodes.modify _ _).map (·.endpoint) = s.picker.ready
        rw [hp]
        refine Rotation.endpoints_modify (fun n => ?_) _
        unfold Rotation.settle
        split <;> rfl
      · exact same_of_endpoints rfl rfl
    · exact same_of_endpoints rfl rfl

end RemoteCall.Selection
