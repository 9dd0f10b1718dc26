import RemoteCall.Proofs.Balancer.InFlight
import RemoteCall.Proofs.Selection.Admitted
import Mathlib.Data.List.Induction

/-! Whom a pick by least activity finds, whether or not calls end and updates come in the course of
it.

While one pick is under way counters only go down. So the endpoint that it settles on has no more
calls by then than any candidate had when the pick began; and if no candidate's counter went down
meanwhile, it is the first one with the least of them. -/
namespace RemoteCall

namespace Selection
variable {f : Nat → UInt32} {items : List Nat} {e x : Nat}

def FirstLeast (f : Nat → UInt32) (items : List Nat) (e : Nat) : Prop :=
  ∃ before after, items = before ++ e :: after ∧ (∀ x ∈ before, f e < f x) ∧ ∀ x ∈ after, f e ≤ f x

theorem minOn?_concat (f : Nat → UInt32) (items : List Nat) (x : Nat) : (items ++ [x]).minOn? f =
    match items.minOn? f with
    | none => some x
    | some e => some (if f e ≤ f x then e else x) := by
  rw [List.minOn?_append, List.minOn?_singleton]
  cases items.minOn? f with
  | none => rfl
  | some e => rfl

/-- The least item that is found is the first of its kind. -/
theorem firstLeast_of_minOn? (h : items.minOn? f = some e) : FirstLeast f items e := by
  -- by the last item, with which the best of those before it is compared
  induction items using List.reverseRecOn generalizing e with
  | nil => cases h
  | append_singleton items x ih =>
    rw [minOn?_concat] at h
    cases hm : items.minOn? f with
    | none =>
      rw [hm] at h
      cases h
      have hnil : items = [] := by
        cases items with
        | nil => rfl
        | cons y rest => cases hm
      exact ⟨[], [], by rw [hnil], nofun, nofun⟩
    | some b =>
      rw [hm] at h
      obtain rfl := Option.some.inj h
      obtain ⟨before, after, rfl, hbefore, hafter⟩ := ih hm
      split
      · rename_i hle
        refine ⟨before, after ++ [x], by simp, hbefore, fun y hy => ?_⟩
        rcases List.mem_append.mp hy with hy | hy
        · exact hafter y hy
        · exact List.mem_singleton.mp hy ▸ hle
      · rename_i hlt
        have hlt := UInt32.not_le.mp hlt
        -- a new least value is below all that came before
        refine ⟨before ++ b :: after, [], rfl, fun y hy => ?_, nofun⟩
        rcases List.mem_append.mp hy with hy | hy
        · exact UInt32.lt_trans hlt (hbefore y hy)
        · rcases List.mem_cons.mp hy with rfl | hy
          · exact hlt
          · exact UInt32.lt_of_lt_of_le hlt (hafter y hy)

end Selection

namespace InFlight
open Selection (FirstLeast Selector Endpoint)
variable {s t : InFlight} {call : Selection.Call} {p : Picking} {seen : List Nat}
  {x : Action} {xs : List Action}
  {e : Nat} {now : Int}

theorem step_start (hidle : s.picking = none) (call : Selection.Call) :
    s.step (.start call) =
      { s with
        picking := some
          { generation := s.balancer.selector.generation, left := s.candidates call } } := by
  rw [step, hidle]
  rfl

/-! Picks in the midst of other things -/

/-- How far a pick has come that began in `s`, when things stand as in `t`. -/
structure Scanned (s t : InFlight) (call : Selection.Call) (p : Picking) (seen : List Nat) :
    Prop where
  picking_eq : t.picking = some p
  generation_eq : p.generation = s.balancer.selector.generation
  candidates_eq : seen ++ p.left = s.candidates call
  active_le : ∀ e, t.active e ≤ s.active e
  seen_eq_nil : p.best = none → seen = []
  best_mem : ∀ e, p.best = some e → e ∈ seen
  best_le : ∀ e, p.best = some e → ∀ x ∈ seen, t.active e ≤ s.active x
  least_le : ∀ e least, p.best = some e → p.least = some least →
    t.active e ≤ least ∧ ∀ x ∈ seen, least ≤ s.active x
  /-- As long as no counter has gone down. -/
  best_eq : (∀ x ∈ s.candidates call, t.active x = s.active x) → p.best = seen.minOn? s.active
  least_eq : (∀ x ∈ s.candidates call, t.active x = s.active x) →
    ∀ e least, p.best = some e → p.least = some least → least = s.active e

namespace Scanned

theorem start (hidle : s.picking = none) : s.Scanned (s.step (.start call)) call
    { generation := s.balancer.selector.generation, left := s.candidates call } [] := by
  rw [step_start hidle]
  exact ⟨rfl, rfl, rfl, fun _ => UInt32.le_refl _, fun _ => rfl, nofun, nofun, nofun,
    fun _ => rfl, nofun⟩

/-- Whatever leaves the pick where it is may only lower counters. -/
theorem lower (h : s.Scanned t call p seen) {t' : InFlight} (hp : t'.picking = t.picking)
    (hle : ∀ e, t'.active e ≤ t.active e) : s.Scanned t' call p seen := by
  -- a counter that stands now where it stood at first has not gone down in between
  have hquiet (hq : ∀ x ∈ s.candidates call, t'.active x = s.active x) :
      ∀ x ∈ s.candidates call, t.active x = s.active x :=
    fun x hx => UInt32.le_antisymm (h.active_le x) (hq x hx ▸ hle x)
  refine ⟨hp.trans h.picking_eq, h.generation_eq, h.candidates_eq, fun e =>
    UInt32.le_trans (hle e) (h.active_le e),
    h.seen_eq_nil, h.best_mem, fun e he x hx => UInt32.le_trans (hle e) (h.best_le e he x hx),
    fun e least he hl => ?_, fun hq => h.best_eq (hquiet hq), fun hq => h.least_eq (hquiet hq)⟩
  obtain ⟨hle', hseen⟩ := h.least_le e least he hl
  exact ⟨UInt32.le_trans (hle e) hle', hseen⟩

theorem read (h : s.Scanned t call p seen) :
    s.Scanned (t.step .read) call { p with least := p.best.map t.active } seen := by
  refine ⟨?_, h.generation_eq, h.candidates_eq, h.active_le, h.seen_eq_nil, h.best_mem, h.best_le,
    fun e least he hl => ?_, h.best_eq, fun hq e least he hl => ?_⟩
  · rw [step, h.picking_eq]
    rfl
  · have he : p.best = some e := he
    have hl : p.best.map t.active = some least := hl
    rw [he] at hl
    obtain rfl := Option.some.inj hl
    exact ⟨UInt32.le_refl _, h.best_le e he⟩
  · have he : p.best = some e := he
    have hl : p.best.map t.active = some least := hl
    rw [he] at hl
    obtain rfl := Option.some.inj hl
    refine hq e ?_
    rw [← h.candidates_eq]
    exact List.mem_append_left _ (h.best_mem e he)

/-- The next endpoint is looked at, and the best one is chosen anew. -/
theorem next (h : s.Scanned t call p seen) {rest : List Nat} {b : Nat} (hleft : p.left = e :: rest)
    (hpicking : (t.step .look).picking = some
      { p with left := rest, best := some b, least := none }) (hmem : b ∈ seen ++ [e])
    (hle : ∀ x ∈ seen ++ [e], t.active b ≤ s.active x)
    (hb : (∀ x ∈ s.candidates call, t.active x = s.active x) →
      some b = (seen ++ [e]).minOn? s.active) :
    s.Scanned (t.step .look) call { p with left := rest, best := some b, least := none }
      (seen ++ [e]) where
  picking_eq := hpicking
  generation_eq := h.generation_eq
  candidates_eq := by
    rw [List.append_assoc, List.singleton_append, ← hleft]
    exact h.candidates_eq
  active_le := h.active_le
  seen_eq_nil := nofun
  best_mem x hx := Option.some.inj hx ▸ hmem
  best_le x hx := Option.some.inj hx ▸ hle
  least_le := nofun
  best_eq := hb
  least_eq := nofun

theorem look (h : s.Scanned t call p seen) :
    ∃ p' seen', s.Scanned (t.step .look) call p' seen' := by
  have hstep : (t.step .look).picking = some (p.look t.active) := by
    rw [step, h.picking_eq]
    rfl
  unfold Picking.look at hstep
  split at hstep
  · rename_i e rest hleft hbest
    obtain rfl := h.seen_eq_nil hbest
    refine ⟨_, _, h.next hleft hstep (List.mem_singleton_self e) (fun x hx => ?_) fun _ => rfl⟩
    exact List.mem_singleton.mp hx ▸ h.active_le e
  · rename_i e rest b least hleft hbest hleast
    obtain ⟨hbl, hseen⟩ := h.least_le b least hbest hleast
    -- the counter that was read may be lower by now, and the next one is read only now: both are
    -- bounded by what they were at first, on either side of the comparison
    refine ⟨_, _, h.next hleft hstep ?_ (fun x hx => ?_) fun hq => ?_⟩
    · split
      · exact List.mem_append_left _ (h.best_mem b hbest)
      · exact List.mem_append_right _ (List.mem_singleton_self e)
    · rcases List.mem_append.mp hx with hx | hx
      · split
        · exact h.best_le b hbest x hx
        · rename_i hlt
          exact UInt32.le_trans (UInt32.le_of_lt (UInt32.not_le.mp hlt)) (hseen x hx)
      · rw [List.mem_singleton.mp hx]
        split
        · rename_i hle
          exact UInt32.le_trans hbl (UInt32.le_trans hle (h.active_le e))
        · exact h.active_le e
    · have he : t.active e = s.active e := by
        refine hq e ?_
        rw [← h.candidates_eq, hleft]
        exact List.mem_append_right _ List.mem_cons_self
      rw [Selection.minOn?_concat, ← h.best_eq hq, hbest, h.least_eq hq b least hbest hleast, he]
  · exact ⟨p, seen, hstep, h.generation_eq, h.candidates_eq, h.active_le,
      h.seen_eq_nil, h.best_mem, h.best_le, h.least_le, h.best_eq, h.least_eq⟩

end Scanned

theorem picking_runDone (s : InFlight) (k : Nat) (failed : Bool) (now : Int) :
    (s.runDone k failed now).picking = s.picking := by
  unfold runDone
  split
  · rfl
  · rfl

namespace Scanned

/-- Whatever else happens in between, a pick stays on its way. -/
theorem step (h : s.Scanned t call p seen) (ht : t.Accounted) (hb : t.Bounded) (hx : x ≠ .settle) :
    ∃ p' seen', s.Scanned (t.step x) call p' seen' := by
  have hlower (hp : (t.step x).picking = t.picking) :
      ∃ p' seen', s.Scanned (t.step x) call p' seen' :=
    ⟨p, seen, h.lower hp fun _ => ht.active_step_le hb hx⟩
  cases x with
  | settle => exact absurd rfl hx
  | read => exact ⟨_, _, h.read⟩
  | look => exact h.look
  | find => exact hlower rfl
  | start call =>
    refine hlower ?_
    rw [InFlight.step, h.picking_eq]
    exact h.picking_eq
  | update found instances =>
    refine hlower ?_
    rw [InFlight.step]
    split
    · rfl
    · rfl
  | call k failed now => exact hlower ((picking_runDone _ _ _ _).trans (picking_runDone _ _ _ _))
  | drop k now => exact hlower (picking_runDone _ _ _ _)

theorem run (h : s.Scanned t call p seen) (ht : t.Accounted) (hb : t.Bounded)
    (hxs : ∀ x ∈ xs, x ≠ .settle) : ∃ p' seen', s.Scanned (t.run xs) call p' seen' := by
  induction xs generalizing t p seen with
  | nil => exact ⟨p, seen, h⟩
  | cons x rest ih =>
    have hx := hxs x List.mem_cons_self
    obtain ⟨p', seen', h'⟩ := h.step ht hb hx
    exact ih h' (ht.step x) (hb.step hx) fun y hy => hxs y (List.mem_cons_of_mem x hy)

end Scanned

/-- What becomes of a pick that found things as they are in `s`, when it would settle in `t`. -/
inductive Settled (s t : InFlight) (call : Selection.Call) : Prop where
  /-- There are endpoints that it has not looked at. -/
  | early (p : Picking) (picking_eq : t.picking = some p) (left_ne : p.left ≠ [])
    (step_eq : t.step .settle = t)
  | refused (candidates_eq : s.candidates call = [])
    (step_eq : t.step .settle = { t with picking := none })
  /-- It counts at an endpoint that has no more calls than any candidate had. If no call over a
  candidate has ended in its course, that is the first one with the least of them. -/
  | picked (e : Nat) (mem : e ∈ s.candidates call)
    (step_eq : t.step .settle = t.enter e s.balancer.selector.generation)
    (active_le : ∀ x ∈ s.candidates call, t.active e ≤ s.active x)
    (firstLeast : (∀ x ∈ s.candidates call, t.active x = s.active x) →
      FirstLeast s.active (s.candidates call) e)

/-- What a pick comes to that settles now, by what it has compared. -/
theorem Scanned.settled (h : s.Scanned t call p seen) : s.Settled t call := by
  have hstep : t.step .settle = t.settle p := by
    rw [InFlight.step, h.picking_eq]
    rfl
  unfold settle at hstep
  have hseen (hleft : p.left = []) : seen = s.candidates call := by
    rw [← h.candidates_eq, hleft, List.append_nil]
  split at hstep
  · rename_i hleft hbest
    exact .refused ((hseen hleft).symm.trans (h.seen_eq_nil hbest)) hstep
  · rename_i e hleft hbest
    rw [h.generation_eq] at hstep
    obtain rfl := hseen hleft
    exact .picked e (h.best_mem e hbest) hstep (h.best_le e hbest) fun hq =>
      Selection.firstLeast_of_minOn? ((h.best_eq hq).symm.trans hbest)
  · rename_i hleft
    exact .early p h.picking_eq (hleft.symm ▸ List.cons_ne_nil _ _) hstep

/-- A pick that begins in `s` settles as it should, whatever else goes on in its course. -/
theorem Accounted.settled (h : s.Accounted) (hb : s.Bounded) (hidle : s.picking = none)
    (hxs : ∀ x ∈ xs, x ≠ .settle) : s.Settled (s.run (.start call :: xs)) call := by
  have hstart : s.Scanned (s.step (.start call)) call _ [] := .start hidle
  obtain ⟨p, seen, hscanned⟩ := hstart.run (h.step _) (hb.step nofun) hxs
  exact hscanned.settled

/-! Picks that nothing interrupts -/

theorem run_append (s : InFlight) (first second : List Action) :
    s.run (first ++ second) = (s.run first).run second :=
  List.foldl_append

/-- So many looks, each after a reading, go through all that is left. -/
theorem run_looks {rest : List Nat} {n : Nat} (hn : rest.length ≤ n) (hleft : p.left = rest)
    (hbest : p.best = seen.minOn? s.active) :
    ∃ least, ({ s with picking := some p } : InFlight).run
      (List.replicate n [Action.read, .look]).flatten =
      { s with picking := some ⟨p.generation, [], (seen ++ rest).minOn? s.active, least⟩ } := by
  induction n generalizing p seen rest with
  | zero =>
    obtain rfl := List.eq_nil_of_length_eq_zero (Nat.le_zero.mp hn)
    exact ⟨p.least, by rw [List.append_nil, ← hbest, ← hleft]; rfl⟩
  | succ n ih =>
    rw [List.replicate_succ, List.flatten_cons, run_append]
    change ∃ least,
      run { s with
        picking := some (Picking.look { p with least := p.best.map s.active } s.active) } _ = _
    cases rest with
    | nil =>
      -- a look when nothing is left does nothing
      have hlook : Picking.look { p with least := p.best.map s.active } s.active =
          { p with least := p.best.map s.active } := by
        unfold Picking.look
        dsimp only
        rw [hleft]
      rw [hlook]
      exact ih (Nat.zero_le n) hleft hbest
    | cons e rest =>
      have hlook : Picking.look { p with least := p.best.map s.active } s.active =
          { p with left := rest, best := (seen ++ [e]).minOn? s.active, least := none } := by
        rw [Selection.minOn?_concat, ← hbest]
        unfold Picking.look
        dsimp only
        rw [hleft]
        cases p.best with
        | none => rfl
        | some b => rfl
      have hrest : rest.length ≤ n := Nat.le_of_succ_le_succ hn
      rw [hlook, List.append_cons seen e rest]
      exact ih hrest rfl rfl

/-- A pick that nothing interrupts. -/
theorem run_atOnce (hidle : s.picking = none) {n : Nat} (hn : (s.candidates call).length ≤ n) :
    s.run (atOnce call n) =
      match (s.candidates call).minOn? s.active with
      | some e => s.enter e s.balancer.selector.generation
      | none => s := by
  let begun : Picking := { generation := s.balancer.selector.generation, left := s.candidates call }
  have hstart : s.step (.start call) = { s with picking := some begun } := step_start hidle call
  obtain ⟨least, hlooks⟩ : ∃ least,
      ({ s with picking := some begun } : InFlight).run
        (List.replicate n [Action.read, .look]).flatten =
        { s with
          picking := some
            ⟨begun.generation, [], ([] ++ s.candidates call).minOn? s.active, least⟩ } :=
    run_looks hn rfl rfl
  rw [atOnce, run_append]
  change ((s.step (.start call)).run _).step .settle = _
  rw [hstart, hlooks, List.nil_append]
  cases (s.candidates call).minOn? s.active with
  | none =>
    change ({ s with picking := none } : InFlight) = s
    rw [← hidle]
  | some e => rfl

/-- What a pick comes to that nothing interrupts. -/
inductive Picked (s t : InFlight) (call : Selection.Call) : Prop where
  | refused (candidates_eq : s.candidates call = []) (eq : t = s)
  | picked (e : Nat) (firstLeast : FirstLeast s.active (s.candidates call) e)
    (eq : t = s.enter e s.balancer.selector.generation)

theorem candidates_eq_nil (h : (s.candidates call).minOn? s.active = none) :
    s.candidates call = [] := by
  cases hc : s.candidates call with
  | nil => rfl
  | cons e rest =>
    rw [hc] at h
    cases h

/-- A pick that nothing interrupts falls on the first candidate with the least counter. -/
theorem picked_atOnce (hidle : s.picking = none) {n : Nat} (hn : (s.candidates call).length ≤ n) :
    s.Picked (s.run (atOnce call n)) call := by
  have hrun := run_atOnce hidle hn
  cases hbest : (s.candidates call).minOn? s.active with
  | none =>
    rw [hbest] at hrun
    exact .refused (candidates_eq_nil hbest) hrun
  | some e =>
    rw [hbest] at hrun
    exact .picked e (Selection.firstLeast_of_minOn? hbest) hrun

/-- What is chosen at once is what a pick finds that nothing interrupts. -/
theorem Accounted.pick_eq (h : s.Accounted) (call : Selection.Call) (now : Int) (draw : Nat) :
    s.balancer.selector.pick call now draw =
      match (s.candidates call).minOn? s.active with
      | some e => .ok (s.balancer.selector.modify e Endpoint.enter,
          ⟨⟨e, .active e⟩, s.balancer.selector.generation⟩)
      | none => .error Selection.noConnection := by
  have hpick : s.balancer.selector.picker.pick (s.balancer.selector.view call now draw) =
      match (s.candidates call).minOn? s.active with
      | some e => .ok (s.balancer.selector.picker, ⟨e, .active e⟩)
      | none => .error Selection.noConnection := by
    rw [h.picker_eq]
    rfl
  rw [Selector.pick, hpick]
  cases (s.candidates call).minOn? s.active with
  | none => rfl
  | some e => rfl

end InFlight
end RemoteCall
