import RemoteCall.Proofs.Pool.Holders

/-! Whoever asks a pool that is closed is told so at once, and stands nowhere ever after.

What is given away goes to callers in line, and a caller that has been turned away is not among
them. So nothing that others do afterwards concerns it. -/
namespace RemoteCall.Pool

namespace State
variable {s s₁ s₂ : State} {t u c : Nat} {p : Phase} {x : Step}

/-! What does not concern a caller -/

theorem answer?_answer (r : Result Nat) :
    (s.answer u r).answer? t = if t = u then some r else s.answer? t := by
  rw [answer, answer?, List.reverse_append, List.reverse_singleton,
    List.singleton_append, List.lookup_cons]
  by_cases h : t = u
  · simp [h]
  · have hb : (t == u) = false := beq_eq_false_iff_ne.mpr h
    rw [hb, if_neg h]
    rfl

structure Aside (t : Nat) (s s₁ : State) : Prop where
  phase?_eq : s₁.phase? t = s.phase? t
  asked_iff : t ∈ s₁.asked ↔ t ∈ s.asked
  answer?_eq : s₁.answer? t = s.answer? t

theorem Aside.trans (h : Aside t s s₁) (h' : Aside t s₁ s₂) : Aside t s s₂ where
  phase?_eq := h'.phase?_eq.trans h.phase?_eq
  asked_iff := h'.asked_iff.trans h.asked_iff
  answer?_eq := h'.answer?_eq.trans h.answer?_eq

theorem aside_forget (h : t ≠ u) : Aside t s (s.forget u) :=
  ⟨phase?_forget.trans (if_neg h), Iff.rfl, rfl⟩

theorem aside_setPhase (h : t ≠ u) : Aside t s (s.setPhase u p) :=
  ⟨phase?_setPhase.trans (if_neg h), Iff.rfl, rfl⟩

theorem aside_answer (h : t ≠ u) (r : Result Nat) : Aside t s (s.answer u r) :=
  ⟨rfl, Iff.rfl, (answer?_answer r).trans (if_neg h)⟩

theorem aside_fail (h : t ≠ u) (e : Error) : Aside t s (s.fail u e) :=
  (aside_forget h).trans (aside_answer h _)

theorem aside_hold (h : t ≠ u) : Aside t s (s.hold u c) :=
  (aside_setPhase h).trans (aside_answer h _)

theorem aside_startDial (h : t ≠ u) : Aside t s (s.startDial u) :=
  ⟨phase?_startDial.trans (if_neg h), Iff.rfl, rfl⟩

theorem aside_drop : Aside t s (s.drop c) := ⟨rfl, Iff.rfl, rfl⟩

theorem aside_freeSlot (h : s.phase? t ≠ some .queued) : Aside t s s.freeSlot := by
  refine ⟨phase?_freeSlot h, ?_, ?_⟩ <;>
  · unfold freeSlot
    split <;> rfl

theorem aside_giveBack (h : s.phase? t ≠ some .queued) : Aside t s (s.giveBack c) := by
  refine ⟨phase?_giveBack h, ?_, ?_⟩ <;>
  · unfold giveBack
    split
    · rfl
    · dsimp only
      split <;> rfl

/-! Callers of a closed pool -/

/-- The caller stands nowhere. If it has asked at all, it was told that the pool is closed. -/
structure TurnedAway (s : State) (t : Nat) : Prop where
  phase?_eq : s.phase? t = none
  answer?_eq : t ∈ s.asked → s.answer? t = some (.error closedError)

theorem TurnedAway.aside (h : s.TurnedAway t) (ha : Aside t s s₁) : s₁.TurnedAway t where
  phase?_eq := ha.phase?_eq.trans h.phase?_eq
  answer?_eq ht := ha.answer?_eq.trans (h.answer?_eq (ha.asked_iff.mp ht))

/-- So nothing is given to it. -/
theorem TurnedAway.not_queued (h : s.TurnedAway t) (ha : Aside t s s₁) :
    s₁.phase? t ≠ some .queued := by
  rw [ha.phase?_eq, h.phase?_eq]
  exact nofun

theorem turnedAway_of_not_asked (h : s.Balanced 0) (ht : t ∉ s.asked) : s.TurnedAway t where
  phase?_eq := by
    by_contra hne
    exact ht (h.asked_of_mem t (mem_tickets.mpr hne))
  answer?_eq hmem := absurd hmem ht

theorem turnedAway_fail (s : State) (t : Nat) : (s.fail t closedError).TurnedAway t where
  phase?_eq := (phase?_fail _).trans (if_pos rfl)
  answer?_eq _ := (answer?_answer _).trans (if_pos rfl)

/-- Once the pool is closed, whoever stands nowhere in it gets nothing any more. -/
theorem turnedAway_step (h : s.Balanced 0) (hc : s.closed = true) (ht : s.TurnedAway t) (x : Step) :
    (s.step x).TurnedAway t := by
  have hx := h.stepping x
  generalize s.step x = s' at hx
  -- who stands somewhere is another caller
  have hne {u : Nat} {p : Phase} (hu : s.phase? u = some p) : t ≠ u := by
    rintro rfl
    cases ht.phase?_eq.symm.trans hu
  have hfree {s₁ : State} (ha : Aside t s s₁) : Aside t s s₁.freeSlot :=
    ha.trans (aside_freeSlot (ht.not_queued ha))
  cases hx with
  | rests => exact ht
  | asks u s' hu hp hadm =>
    have hask : s' = ({ s with asked := u :: s.asked } : State).fail u closedError := by
      cases hadm with
      | closed _ => rfl
      | reused hopen | dials hopen | busy hopen | queues hopen => cases hc.symm.trans hopen
    rw [hask]
    by_cases htu : t = u
    · exact htu ▸ turnedAway_fail _ _
    · have hasked : Aside t s { s with asked := u :: s.asked } := by
        refine ⟨rfl, ?_, rfl⟩
        exact List.mem_cons.trans (or_iff_right htu)
      exact ht.aside (hasked.trans (aside_fail htu _))
  | takes x u c hx hu => exact ht.aside (aside_hold (hne hu))
  | dials x u hx hu => exact ht.aside (aside_startDial (hne hu))
  | fails x u p e hx hu hn => exact ht.aside (aside_fail (hne hu) e)
  | opens u c hu => exact ht.aside (aside_hold (hne hu))
  | opensNot u c e hu => exact ht.aside (hfree (aside_fail (hne hu) e))
  | releases u c hu =>
    have ha : Aside t s (s.forget u) := aside_forget (hne hu)
    exact ht.aside (ha.trans (aside_giveBack (ht.not_queued ha)))
  | drops u c p hu hc => exact ht.aside (hfree ((aside_forget (hne hu)).trans aside_drop))
  | frees u p hu hn => exact ht.aside (hfree (aside_forget (hne hu)))
  | leaves u p hu hn => exact ht.aside (aside_forget (hne hu))
  | closes =>
    refine ht.aside ⟨?_, Iff.rfl, rfl⟩
    have hclose : s.close.phase? t = (s.phase? t).map fun p =>
        if p == .queued then .refused else p :=
      phase?_refuseAll
    rw [hclose, ht.phase?_eq]
    rfl
  | passes span => exact ht.aside ⟨rfl, Iff.rfl, rfl⟩

/-- A caller that has not asked before the pool is closed gets nothing from it. -/
theorem turnedAway_run (h : s.Balanced 0) (hc : s.closed = true) (ht : s.TurnedAway t)
    (steps : List Step) : (s.run steps).TurnedAway t := by
  induction steps generalizing s with
  | nil => exact ht
  | cons x rest ih =>
      exact ih (balanced_step h x) ((frame_step h x).closed hc) (turnedAway_step h hc ht x)

end State
end RemoteCall.Pool
