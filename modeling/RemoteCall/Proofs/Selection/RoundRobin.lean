import RemoteCall.Proofs.Selection.Action
import Mathlib.Data.List.Rotate

/-! Picks in rotation.

All callers of a picker share its cursor, which is a position in the candidates of whoever picked
last. So picks go round the candidates in order as long as all of them choose among the same; a pick
among others moves the cursor to where it left off in these. -/
namespace RemoteCall.Selection
variable {s : Selector} {ready cands xs ys : List Nat} {start start' cursor e x : Nat}
  {actions : List Action}

/-- Entries go round the candidates in order, the first from the one at `start`. -/
def Cyclic (cands : List Nat) (start : Nat) (xs : List Nat) : Prop :=
  ∀ (t : Nat) (x : Nat), xs[t]? = some x → cands[(start + t) % cands.length]? = some x

namespace Cyclic

theorem cons (hx : cands[start % cands.length]? = some x)
    (h : Cyclic cands (start % cands.length + 1) xs) : Cyclic cands start (x :: xs) := by
  intro t y hy
  cases t with
  | zero =>
    obtain rfl := Option.some.inj hy
    exact hx
  | succ t =>
    have hnext := h t y hy
    rwa [Nat.add_assoc, Nat.mod_add_mod, Nat.add_comm 1] at hnext

theorem append (h : Cyclic cands start (xs ++ ys)) :
    Cyclic cands start xs ∧ Cyclic cands (start + xs.length) ys := by
  refine ⟨fun t x hx => h t x ?_, fun t y hy => ?_⟩
  · rw [List.getElem?_append_left (List.getElem?_eq_some_iff.mp hx).1, hx]
  · rw [Nat.add_assoc]
    refine h (xs.length + t) y ?_
    rw [List.getElem?_append_right (Nat.le_add_right _ _), Nat.add_sub_cancel_left, hy]

/-- Once round at most. -/
theorem eq_take_rotate (h : Cyclic cands start xs) (hle : xs.length ≤ cands.length) :
    xs = (cands.rotate start).take xs.length := by
  apply List.ext_getElem?
  intro t
  by_cases ht : t < xs.length
  · rw [List.getElem?_take_of_lt ht, List.getElem?_rotate (ht.trans_le hle), Nat.add_comm t]
    have hx := List.getElem?_eq_getElem ht
    rw [hx, h t _ hx]
  · rw [List.getElem?_eq_none (not_lt.mp ht), List.getElem?_eq_none]
    exact (List.length_take_le _ _).trans (not_lt.mp ht)

/-- As long as a round is not over, no entry comes more often than there are candidates for it. -/
theorem count_le (h : Cyclic cands start xs) (hle : xs.length ≤ cands.length) (e : Nat) :
    xs.count e ≤ cands.count e := by
  rw [h.eq_take_rotate hle, ← (List.rotate_perm cands start).count_eq e]
  exact (List.take_sublist _ _).count_le e

/-- In a whole round each entry comes as often as it is a candidate. -/
theorem count_eq (h : Cyclic cands start xs) (hlength : xs.length = cands.length) (e : Nat) :
    xs.count e = cands.count e := by
  rw [h.eq_take_rotate hlength.le, hlength, ← List.length_rotate cands start, List.take_length,
    (List.rotate_perm cands start).count_eq e]

/-- Every candidate comes as often as the rounds are many, up to one. -/
theorem count_bounds (hcands : cands ≠ []) (h : Cyclic cands start xs) (e : Nat) :
    cands.count e * (xs.length / cands.length) ≤ xs.count e ∧
      xs.count e ≤ cands.count e * ((xs.length + cands.length - 1) / cands.length) := by
  have hk := List.length_pos_of_ne_nil hcands
  generalize hn : xs.length = n
  -- on the number of picks, a round of them at a time
  induction n using Nat.strong_induction_on generalizing xs start with
  | _ n ih =>
    by_cases hlt : n < cands.length
    · rw [Nat.div_eq_of_lt hlt, Nat.mul_zero]
      refine ⟨Nat.zero_le _, ?_⟩
      cases xs with
      | nil => exact Nat.zero_le _
      | cons x xs =>
        have hone : 1 ≤ (n + cands.length - 1) / cands.length := by
          rw [List.length_cons] at hn
          rw [Nat.le_div_iff_mul_le hk]
          omega
        exact (h.count_le (hn ▸ hlt.le) e).trans (Nat.le_mul_of_pos_right _ hone)
    · -- a whole round, and what is left starts over where it did
      have hle := not_lt.mp hlt
      obtain ⟨first, rest, rfl, hfirst⟩ : ∃ first rest, xs = first ++ rest ∧
        first.length = cands.length :=
        ⟨xs.take cands.length, xs.drop cands.length, (List.take_append_drop _ _).symm,
          List.length_take_of_le (hn ▸ hle)⟩
      obtain ⟨hround, hrest⟩ := h.append
      rw [List.length_append, hfirst] at hn
      obtain ⟨hlo, hhi⟩ := ih rest.length (by omega) hrest rfl
      have hdiv : n / cands.length = rest.length / cands.length + 1 := by
        rw [← hn, Nat.add_comm, Nat.add_div_right _ hk]
      have hceil : (n + cands.length - 1) / cands.length =
          (rest.length + cands.length - 1) / cands.length + 1 := by
        rw [← Nat.add_div_right _ hk]
        congr 1
        omega
      rw [List.count_append, hround.count_eq hfirst, hdiv, hceil, Nat.mul_succ, Nat.mul_succ]
      omega

end Cyclic

namespace Selector

/-- A pick takes the candidate at the cursor, counted round. -/
theorem pick_roundRobin (hp : s.picker = .roundRobin ready cursor) (call : Call) (now : Int)
    (draw : Nat) :
    s.pick call now draw =
    match (ready.filter (s.admits call))[cursor % (ready.filter (s.admits call)).length]? with
      | some e =>
        .ok ({ s with
          picker := .roundRobin ready (cursor % (ready.filter (s.admits call)).length + 1) },
          ⟨⟨e, .none⟩, s.generation⟩)
      | none => .error noConnection := by
  unfold pick
  rw [hp]
  simp only [Picker.pick]
  change (match (ready.filter (s.admits call))[cursor % (ready.filter (s.admits call)).length]? with
    | some e => _
    | none => _ : Result _) >>= _ = _
  cases (ready.filter (s.admits call))[cursor % (ready.filter (s.admits call)).length]? with
  | none => rfl
  | some e => rfl

/-- The end of a call leaves the rotation alone. -/
theorem finish_roundRobin (hp : s.picker = .roundRobin ready cursor) (pick : Pick) (failed : Bool)
    (now : Int) : (s.finish pick failed now).picker = .roundRobin ready cursor := by
  unfold finish
  split
  · exact hp
  · exact hp
  · exact hp
  · rw [hp]
    exact hp

theorem step_roundRobin (hp : s.picker = .roundRobin ready cursor) (a : Action) :
    ∃ after, (s.step a).picker = .roundRobin ready after := by
  cases a with
  | finish pick failed now => exact ⟨cursor, finish_roundRobin hp pick failed now⟩
  | pick call now draw =>
    have hpick := pick_roundRobin hp call now draw
    split at hpick
    · rw [step_of_ok hpick]
      exact ⟨_, rfl⟩
    · rw [step_of_error hpick]
      exact ⟨cursor, hp⟩

theorem run_roundRobin (hp : s.picker = .roundRobin ready cursor) (actions : List Action) :
    ∃ after, (s.run actions).picker = .roundRobin ready after := by
  induction actions generalizing s cursor with
  | nil => exact ⟨cursor, hp⟩
  | cons a rest ih =>
    obtain ⟨after, hafter⟩ := step_roundRobin hp a
    exact ih hafter

/-- Picks among the same candidates go round these. -/
theorem picks_cyclic (hp : s.picker = .roundRobin ready cursor) (hcands : cands ≠ [])
    (actions : List Action)
    (hcalls : ∀ a ∈ actions, ∀ call, a.call? = some call → ready.filter (s.admits call) = cands) :
    ∃ picked : List Pick, s.picks actions = picked.map .ok ∧
    Cyclic cands cursor (picked.map Pick.endpoint) := by
  -- on the run; the cursor, which every pick moves on by one, is where the cycle starts
  induction actions generalizing s cursor with
  | nil => exact ⟨[], rfl, nofun⟩
  | cons a rest ih =>
    have hrest : ∀ b ∈ rest, ∀ call, b.call? = some call →
        ready.filter ((s.step a).admits call) = cands := by
      intro b hb call hcall
      rw [(kept_step s a).admits_eq]
      exact hcalls b (List.mem_cons_of_mem a hb) call hcall
    cases a with
    | finish pick failed now => exact ih (finish_roundRobin hp pick failed now) hrest
    | pick call now draw =>
      have hpick := pick_roundRobin hp call now draw
      rw [hcalls _ List.mem_cons_self call rfl] at hpick
      have hx := List.getElem?_eq_getElem (Nat.mod_lt cursor (List.length_pos_of_ne_nil hcands))
      rw [hx] at hpick
      have hstep := step_of_ok hpick
      obtain ⟨picked, hpicked, hcyclic⟩ := ih (by rw [hstep]) hrest
      refine ⟨⟨⟨_, .none⟩, s.generation⟩ :: picked, ?_, .cons hx hcyclic⟩
      rw [picks, hpick, hpicked]
      rfl

/-- Whoever picked before: as long as all picks are among the same candidates each of them succeeds,
they go round the candidates in order, and of any of them in a row each candidate gets its share, up
to one. -/
theorem rotates_evenly (s : Selector) (hmode : s.mode = .roundRobin) (ready : List Nat)
    (history actions : List Action) (cands : List Nat) (hcands : cands ≠ [])
    (hcalls : ∀ a ∈ actions, ∀ call, a.call? = some call → ready.filter (s.admits call) = cands) :
    ∃ start, ∃ picked : List Pick,
      ((s.rebuild ready).run history).picker = .roundRobin ready start ∧
      ((s.rebuild ready).run history).picks actions = picked.map .ok ∧
      Cyclic cands start (picked.map Pick.endpoint) ∧
      ∀ before block after, picked = before ++ block ++ after → ∀ e,
        cands.count e * (block.length / cands.length) ≤ (block.map Pick.endpoint).count e ∧
          (block.map Pick.endpoint).count e ≤
            cands.count e * ((block.length + cands.length - 1) / cands.length) := by
  have hbuilt : (s.rebuild ready).picker = .roundRobin ready 0 := by
    rw [rebuild, hmode]
    rfl
  obtain ⟨start, hstart⟩ := run_roundRobin hbuilt history
  obtain ⟨picked, hpicked, hcyclic⟩ := picks_cyclic hstart hcands actions (by
    rw [(kept_run (s.rebuild ready) history).admits_eq]
    exact hcalls)
  refine ⟨start, picked, hstart, hpicked, hcyclic, fun before block after hsplit e => ?_⟩
  -- any part of what goes round goes round from where it starts
  rw [hsplit, List.map_append, List.map_append] at hcyclic
  have hblock := hcyclic.append.1.append.2
  have hbounds := hblock.count_bounds hcands e
  rwa [List.length_map] at hbounds

/-- Calls of one group to two endpoints, after calls of another group and of none. -/
theorem rotates_evenly_in_group :
    let inst (group : String) : Instance := { name := "svc", address := "h", group := some group }
    let s : Selector := { Selector.ofMode .roundRobin (some Filter.byGroup) with
      endpoints := [⟨inst "a", 0, 0, 0⟩, ⟨inst "a", 1, 0, 0⟩, ⟨inst "b", 2, 0, 0⟩] }
    let pick (group : Option String) : Action :=
      .pick { service := "svc", method := "M", group } 0 0
    let state := (s.rebuild [0, 1, 2]).run [pick (some "b"), pick none, pick none]
    ∃ picked : List Pick, state.picks (List.replicate 5 (pick (some "a"))) = picked.map .ok ∧
      picked.map Pick.endpoint = [1, 0, 1, 0, 1] ∧
      ∀ before block after, picked = before ++ block ++ after → block.length = 3 →
        1 ≤ (block.map Pick.endpoint).count 0 ∧ (block.map Pick.endpoint).count 0 ≤ 2 := by
  intro inst s pick state
  have hcalls : ∀ a ∈ List.replicate 5 (pick (some "a")), ∀ call, a.call? = some call →
      [0, 1, 2].filter (s.admits call) = [0, 1] := by
    intro a ha call hcall
    obtain rfl := List.eq_of_mem_replicate ha
    obtain rfl := Option.some.inj hcall
    decide
  obtain ⟨start, picked, -, hpicks, -, hblocks⟩ := rotates_evenly s rfl [0, 1, 2]
    [pick (some "b"), pick none, pick none] (List.replicate 5 (pick (some "a")))
    [0, 1] (by decide) hcalls
  have hpicked : picked = [1, 0, 1, 0, 1].map fun e => ⟨⟨e, .none⟩, 1⟩ := by
    refine List.map_injective_iff.mpr (fun _ _ h => Except.ok.inj h) (hpicks.symm.trans ?_)
    decide +kernel
  refine ⟨picked, hpicks, by rw [hpicked]; rfl, fun before block after hsplit hlength => ?_⟩
  have hbounds := hblocks before block after hsplit 0
  rw [hlength] at hbounds
  exact hbounds

theorem picks_append (s : Selector) (first rest : List Action) :
    s.picks (first ++ rest) = s.picks first ++ (s.run first).picks rest := by
  induction first generalizing s with
  | nil => rfl
  | cons a first ih =>
    rw [List.cons_append]
    cases a with
    | pick call now draw =>
      rw [picks, picks, ih]
      rfl
    | finish pick failed now =>
      rw [picks, picks, ih]
      rfl

/-- A call with one candidate after each call with more of them moves the cursor back: the latter
all get their second candidate. -/
theorem picks_beside_single (hp : s.picker = .roundRobin ready 1) {call single : Call}
    {first second only : Nat} (hmore : ready.filter (s.admits call) = first :: second :: xs)
    (hone : ready.filter (s.admits single) = [only]) (k : Nat) :
    s.picks (List.replicate k [.pick call 0 0, .pick single 0 0]).flatten =
      (List.replicate k [.ok ⟨⟨second, .none⟩, s.generation⟩,
        .ok ⟨⟨only, .none⟩, s.generation⟩]).flatten := by
  induction k generalizing s with
  | zero => rfl
  | succ k ih =>
    have hcall := pick_roundRobin hp call 0 0
    have hindex : 1 % (first :: second :: xs).length = 1 := Nat.mod_eq_of_lt (by simp)
    rw [hmore, hindex] at hcall
    have hpicker : (s.step (.pick call 0 0)).picker = .roundRobin ready 2 := by
      rw [step_of_ok hcall]
    have hsingle := pick_roundRobin hpicker single 0 0
    rw [(kept_step s _).admits_eq, hone, List.length_singleton, Nat.mod_one] at hsingle
    -- the cursor stood at 1, went to 2 and is back at 1
    have hkept := (kept_step s (.pick call 0 0)).trans (kept_step _ (.pick single 0 0))
    have hlater := ih (s := (s.step (.pick call 0 0)).step (.pick single 0 0))
      (by rw [step_of_ok hsingle]) (by rwa [hkept.admits_eq]) (by rwa [hkept.admits_eq])
    rw [hkept.generation_eq] at hlater
    rw [(kept_step s _).generation_eq] at hsingle
    rw [List.replicate_succ, List.flatten_cons, List.replicate_succ, List.flatten_cons,
      List.cons_append, picks, List.singleton_append, picks, hcall, hsingle, hlater]
    rfl

/-- Two endpoints of one group and one of another, calls of the two groups in turn: after the first
the former group only ever gets its second endpoint, as each call of the other group moves the
cursor back to it. That is no round. -/
theorem starved_by_other_group :
    let inst (group : String) : Instance := { name := "svc", address := "h", group := some group }
    let s : Selector := { Selector.ofMode .roundRobin (some Filter.byGroup) with
      endpoints := [⟨inst "a", 0, 0, 0⟩, ⟨inst "a", 1, 0, 0⟩, ⟨inst "b", 2, 0, 0⟩] }
    let call (group : String) : Call := { service := "svc", method := "M", group := some group }
    let inTurn : List Action := [.pick (call "a") 0 0, .pick (call "b") 0 0]
    let picked (e : Nat) : Result Pick := .ok ⟨⟨e, .none⟩, 1⟩
    [0, 1, 2].filter (s.admits (call "a")) = [0, 1] ∧ [0, 1, 2].filter (s.admits (call "b")) = [2] ∧
      (∀ k, (s.rebuild [0, 1, 2]).picks (inTurn ++ (List.replicate k inTurn).flatten) =
        [picked 0, picked 2] ++ (List.replicate k [picked 1, picked 2]).flatten) ∧
      ∀ start, ¬Cyclic [0, 1] start [0, 1, 1] := by
  intro inst s call inTurn picked
  have hfirst : (s.rebuild [0, 1, 2]).picks inTurn = [picked 0, picked 2] := by decide +kernel
  have hcursor : ((s.rebuild [0, 1, 2]).run inTurn).picker = .roundRobin [0, 1, 2] 1 := by
    decide +kernel
  have hkept := kept_run (s.rebuild [0, 1, 2]) inTurn
  have hmore : [0, 1, 2].filter (s.admits (call "a")) = [0, 1] := by decide
  have hone : [0, 1, 2].filter (s.admits (call "b")) = [2] := by decide
  refine ⟨hmore, hone, fun k => ?_, fun start hcyclic => ?_⟩
  · rw [picks_append, hfirst, picks_beside_single hcursor (by rwa [hkept.admits_eq])
      (by rwa [hkept.admits_eq]), hkept.generation_eq]
    rfl
  · have hsecond := hcyclic 1 1 rfl
    have hthird := hcyclic 2 1 rfl
    rcases Nat.mod_two_eq_zero_or_one start with h | h <;> simp [Nat.add_mod, h] at hsecond hthird

end Selector
end RemoteCall.Selection
