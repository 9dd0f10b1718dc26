import RemoteCall.Proofs.Pool.Ownership
import Mathlib.Data.List.Nodup

/-! The line of waiting callers: nobody in it is forgotten or overtaken.

A caller that gave up stays on the list until it is passed over, so what is fair is said of those
that still stand in line. Every step is an act of one caller, after which something may become free.
-/
namespace RemoteCall.Pool.State
variable {s s₁ : State} {a t u c n w : Nat} {p q : Phase} {rest : List Nat}

/-- Those that still stand in line, the longest waiting first. -/
def liveLine (s : State) : List Nat := s.waiters.filter s.isLive

theorem isLive_iff : s.isLive t = true ↔ s.phase? t = some .queued := by
  simp [isLive]

theorem liveLine_of_line_nil (h : s.line = []) : s.liveLine = [] := by
  rw [liveLine, List.filter_eq_nil_iff]
  intro v hv
  simp [line_eq_nil.mp h v hv]

theorem liveLine_of_line_cons (h : s.line = w :: rest) :
    s.liveLine = w :: rest.filter s.isLive := by
  obtain ⟨hq, gone, hw, hg⟩ := line_eq_cons h
  have hgone : gone.filter s.isLive = [] := by
    rw [List.filter_eq_nil_iff]
    intro v hv
    simp [hg v hv]
  rw [liveLine, hw, List.filter_append, hgone, List.nil_append,
    List.filter_cons_of_pos (isLive_iff.mpr hq)]

def Unserved (s : State) (t : Nat) : Prop :=
  (s.phase? t = none ∨ s.phase? t = some .queued) ∧ ∀ c, (t, .ok c) ∉ s.outcomes

/-- The line is in the order in which its callers asked; whoever asked after one that still stands
in it has got nothing. -/
structure Lined (s : State) : Prop where
  asked_nodup : s.asked.Nodup
  in_order : s.waiters.Sublist s.asked.reverse
  mem_of_queued : ∀ v, s.phase? v = some .queued → v ∈ s.waiters
  fresh : ∀ v, v ∉ s.asked → s.Unserved v
  not_overtaken : ∀ a t, [t, a].Sublist s.asked → s.phase? a = some .queued → s.Unserved t

theorem Lined.asked_of_mem (h : s.Lined) (hv : t ∈ s.waiters) : t ∈ s.asked :=
  List.mem_reverse.mp (h.in_order.subset hv)

/-- One caller does something that leaves the line and all others alone. -/
structure Acted (s s₁ : State) (t : Nat) : Prop where
  others : ∀ v, v ≠ t → s₁.phase? v = s.phase? v
  queued_of_queued : s₁.phase? t = some .queued → s.phase? t = some .queued
  unserved : ∀ v, s.Unserved v → s₁.Unserved v
  waiters_eq : s₁.waiters = s.waiters
  asked_eq : s₁.asked = s.asked

theorem acted_forget : Acted s (s.forget t) t where
  others v hv := by rw [phase?_forget, if_neg hv]
  queued_of_queued h := by simp at h
  unserved v hv := by
    refine ⟨?_, hv.2⟩
    rw [phase?_forget]
    split
    · exact .inl rfl
    · exact hv.1
  waiters_eq := rfl
  asked_eq := rfl

theorem acted_fail (e : Error) : Acted s (s.fail t e) t := by
  have hf : Acted s (s.forget t) t := acted_forget
  refine ⟨hf.others, hf.queued_of_queued, fun v hv =>
    ⟨(hf.unserved v hv).1, fun c hc => ?_⟩, rfl, rfl⟩
  rcases List.mem_append.mp hc with hc | hc
  · exact hv.2 c hc
  · simp at hc

/-- A caller that was given something already gets further. -/
theorem acted_setPhase (hp : s.phase? t = some p) (hq : q ≠ .queued) (hp' : p ≠ .queued) :
    Acted s (s.setPhase t q) t where
  others v hv := by rw [phase?_setPhase, if_neg hv]
  queued_of_queued h := by
    rw [phase?_setPhase, if_pos rfl] at h
    exact absurd (Option.some.inj h) hq
  unserved v hv := by
    have hne : v ≠ t := by
      rintro rfl
      rcases hv.1 with h | h
      · exact absurd (hp.symm.trans h) (by simp)
      · exact absurd (Option.some.inj (hp.symm.trans h)) hp'
    refine ⟨?_, hv.2⟩
    rw [phase?_setPhase, if_neg hne]
    exact hv.1
  waiters_eq := rfl
  asked_eq := rfl

theorem acted_hold (hp : s.phase? t = some p) (hp' : p ≠ .queued) : Acted s (s.hold t c) t := by
  have hs : Acted s (s.setPhase t (.holding c)) t := acted_setPhase hp (by simp) hp'
  refine ⟨hs.others, hs.queued_of_queued, fun v hv =>
    ⟨(hs.unserved v hv).1, fun d hd => ?_⟩, rfl, rfl⟩
  rcases List.mem_append.mp hd with hd | hd
  · exact hv.2 d hd
  · obtain ⟨rfl, -⟩ := Prod.mk.inj (List.mem_singleton.mp hd)
    rcases hv.1 with h | h
    · exact absurd (hp.symm.trans h) (by simp)
    · exact absurd (Option.some.inj (hp.symm.trans h)) hp'

theorem acted_startDial (hp : s.phase? t = some (.handed .slot)) : Acted s (s.startDial t) t := by
  have hs : Acted s (s.setPhase t (.dialing s.next)) t := acted_setPhase hp (by simp) (by simp)
  exact ⟨hs.others, hs.queued_of_queued, hs.unserved, rfl, rfl⟩

theorem Acted.queued (h : Acted s s₁ t) (hv : s₁.phase? a = some .queued) :
    s.phase? a = some .queued := by
  by_cases ha : a = t
  · subst ha
    exact h.queued_of_queued hv
  · rwa [h.others a ha] at hv

/-- Whoever acts on its own leaves the line in order. -/
theorem lined_acted (h : s.Lined) (ha : Acted s s₁ t) : s₁.Lined where
  asked_nodup := ha.asked_eq ▸ h.asked_nodup
  in_order := by
    rw [ha.waiters_eq, ha.asked_eq]
    exact h.in_order
  mem_of_queued v hv := ha.waiters_eq ▸ h.mem_of_queued v (ha.queued hv)
  fresh v hv := ha.unserved v (h.fresh v (ha.asked_eq ▸ hv))
  not_overtaken a u hau hq := ha.unserved u (h.not_overtaken a u (ha.asked_eq ▸ hau) (ha.queued hq))

/-- Of two entries only one comes first. -/
theorem not_sublist_swap {l : List Nat} (h : l.Nodup) (hab : [t, a].Sublist l) :
    ¬ [a, t].Sublist l := by
  -- one of them is the first of the list, or neither is
  induction l with
  | nil => exact absurd hab.length_le (by simp)
  | cons x l ih =>
    obtain ⟨hx, hl⟩ := List.nodup_cons.mp h
    intro hba
    cases hab with
    | cons _ hab =>
      cases hba with
      | cons _ hba => exact ih hl hab hba
      | cons_cons _ hba => exact hx (hab.subset (by simp))
    | cons_cons _ hab =>
      cases hba with
      | cons _ hba => exact hx (hba.subset (by simp))
      | cons_cons _ hba => exact hx (hba.subset (by simp))

/-- The first in line is served: nobody else in it asked before. -/
theorem lined_hand (h : s.Lined) (hl : s.line = w :: rest) (x : Handoff) :
    ((s.withLine rest).setPhase w (.handed x)).Lined := by
  obtain ⟨hw, gone, hs, hg⟩ := line_eq_cons hl
  have hwa : w ∈ s.asked := h.asked_of_mem (by simp [hs])
  have hphase (v : Nat) (hv : v ≠ w) :
      ((s.withLine rest).setPhase w (.handed x)).phase? v = s.phase? v := by
    rw [phase?_setPhase, if_neg hv, phase?_withLine]
  have hunserved (v : Nat) (hv : v ≠ w) (hu : s.Unserved v) :
      ((s.withLine rest).setPhase w (.handed x)).Unserved v := by
    refine ⟨?_, hu.2⟩
    rw [hphase v hv]
    exact hu.1
  have hqueued (v : Nat) (hv : ((s.withLine rest).setPhase w (.handed x)).phase? v = some .queued) :
      s.phase? v = some .queued ∧ v ∈ rest := by
    have hne : v ≠ w := by
      rintro rfl
      simp at hv
    rw [hphase v hne] at hv
    refine ⟨hv, ?_⟩
    have hm := h.mem_of_queued v hv
    rw [hs] at hm
    rcases List.mem_append.mp hm with hm | hm
    · exact absurd (isLive_iff.mpr hv) (by simp [hg v hm])
    · exact (List.mem_cons.mp hm).resolve_left hne
  refine ⟨h.asked_nodup, ?_, fun v hv => (hqueued v hv).2, fun v hv => ?_, fun b v hbv hb => ?_⟩
  · have hr : rest.Sublist s.waiters := by
      rw [hs]
      exact ((List.sublist_cons_self w rest).trans (List.sublist_append_right gone _))
    exact hr.trans h.in_order
  · exact hunserved v (fun he => hv (he ▸ hwa)) (h.fresh v hv)
  · obtain ⟨hbq, hbr⟩ := hqueued b hb
    refine hunserved v ?_ (h.not_overtaken b v hbv hbq)
    rintro rfl
    -- it stands before `b` in line, so it asked before
    have hline : [v, b].Sublist s.waiters := by
      rw [hs]
      exact ((List.singleton_sublist.mpr hbr).cons_cons v).trans (List.sublist_append_right gone _)
    have hrev : [b, v].Sublist s.asked := by
      simpa using List.reverse_sublist.mpr (hline.trans h.in_order)
    exact not_sublist_swap h.asked_nodup hbv hrev

/-- A list on which nobody stands in line any more can be cleared. -/
theorem lined_clear (h : s.Lined) (hl : s.line = []) : (s.withLine []).Lined := by
  refine ⟨h.asked_nodup, List.nil_sublist _, fun v hv => ?_, h.fresh, h.not_overtaken⟩
  have hd := line_eq_nil.mp hl v (h.mem_of_queued v hv)
  exact absurd (isLive_iff.mpr hv) (Bool.eq_false_iff.mp hd)

theorem lined_takeBack (h : s.Lined) : (s.takeBack n).Lined := by
  obtain ⟨h₁, h₂, h₃, h₄, h₅⟩ := h
  exact ⟨h₁, h₂, h₃, h₄, h₅⟩

theorem lined_drop (h : s.Lined) : (s.drop c).Lined := by
  obtain ⟨h₁, h₂, h₃, h₄, h₅⟩ := h
  exact ⟨h₁, h₂, h₃, h₄, h₅⟩

theorem lined_freeSlot (h : s.Lined) : s.freeSlot.Lined := by
  unfold freeSlot
  split
  · rename_i hl
    exact lined_takeBack (lined_clear h hl)
  · rename_i w rest hl
    exact lined_hand h hl .slot

theorem lined_giveBack (h : s.Lined) : (s.giveBack c).Lined := by
  unfold giveBack
  split
  · rename_i w rest hl
    exact lined_hand h hl (.connection c)
  · rename_i hl
    have hc := lined_clear h hl
    dsimp only
    split
    · obtain ⟨h₁, h₂, h₃, h₄, h₅⟩ := hc
      exact ⟨h₁, h₂, h₃, h₄, h₅⟩
    · exact lined_drop (lined_takeBack hc)

/-- A new caller is answered at once, with a connection only if nobody waits. -/
structure Entered (s s₁ : State) (t : Nat) : Prop where
  others : ∀ v, v ≠ t → s₁.phase? v = s.phase? v
  unserved : ∀ v, v ≠ t → s.Unserved v → s₁.Unserved v
  not_queued : s₁.phase? t ≠ some .queued
  unserved_new : s.waiters ≠ [] → s₁.Unserved t
  waiters_eq : s₁.waiters = s.waiters
  asked_eq : s₁.asked = t :: s.asked

/-- A caller that is answered at once overtakes nobody. -/
theorem lined_entered (h : s.Lined) (ht : t ∉ s.asked) (he : Entered s s₁ t) : s₁.Lined := by
  have hqueued (v : Nat) (hv : s₁.phase? v = some .queued) : s.phase? v = some .queued := by
    have hne : v ≠ t := fun hvt => he.not_queued (hvt ▸ hv)
    rwa [he.others v hne] at hv
  refine ⟨?_, ?_, fun v hv => ?_, fun v hv => ?_, fun a v hav hq => ?_⟩
  · rw [he.asked_eq]
    exact List.nodup_cons.mpr ⟨ht, h.asked_nodup⟩
  · rw [he.waiters_eq, he.asked_eq, List.reverse_cons]
    exact h.in_order.trans (List.sublist_append_left _ _)
  · exact he.waiters_eq ▸ h.mem_of_queued v (hqueued v hv)
  · rw [he.asked_eq, List.mem_cons, not_or] at hv
    exact he.unserved v hv.1 (h.fresh v hv.2)
  · have ha := hqueued a hq
    rw [he.asked_eq] at hav
    by_cases hv : v = t
    · subst hv
      exact he.unserved_new (List.ne_nil_of_mem (h.mem_of_queued a ha))
    · refine he.unserved v hv (h.not_overtaken a v ?_ ha)
      exact (List.sublist_cons_iff.mp hav).resolve_right (by
        rintro ⟨r, hr, -⟩
        exact hv (List.cons_eq_cons.mp hr).1)

/-- A new caller goes to the end of the line. -/
theorem lined_enqueue (h : s.Lined) (ht : t ∉ s.asked) :
    ({ s with asked := t :: s.asked, waiters := s.waiters ++ [t] }.setPhase t .queued).Lined := by
  have hphase (v : Nat) (hv : v ≠ t) :
      ({ s with asked := t :: s.asked, waiters := s.waiters ++ [t] }.setPhase t .queued).phase? v =
        s.phase? v := by
    rw [phase?_setPhase, if_neg hv]
    rfl
  have hunserved (v : Nat) (hv : s.Unserved v) :
      ({ s with
        asked := t :: s.asked
        waiters := s.waiters ++ [t] }.setPhase t .queued).Unserved v := by
    refine ⟨?_, hv.2⟩
    rw [phase?_setPhase]
    split
    · exact .inr rfl
    · exact hv.1
  refine ⟨List.nodup_cons.mpr ⟨ht, h.asked_nodup⟩, ?_, fun v hv => ?_, fun v hv =>
    ?_, fun a v hav hq => ?_⟩
  · change (s.waiters ++ [t]).Sublist (t :: s.asked).reverse
    rw [List.reverse_cons]
    exact h.in_order.append (List.Sublist.refl _)
  · change v ∈ s.waiters ++ [t]
    by_cases hvt : v = t
    · simp [hvt]
    · rw [hphase v hvt] at hv
      exact List.mem_append_left _ (h.mem_of_queued v hv)
  · have hv : v ∉ s.asked := fun hm => hv (List.mem_cons_of_mem t hm)
    exact hunserved v (h.fresh v hv)
  · apply hunserved
    -- the new caller itself has got nothing; of the others nothing has changed
    cases hav with
    | cons_cons _ hav => exact h.fresh t ht
    | cons _ hav =>
      have hat : a ≠ t := by
        rintro rfl
        exact ht (hav.subset (by simp))
      rw [hphase a hat] at hq
      exact h.not_overtaken a v hav hq

/-- A new caller is on record, but every place is as before. -/
structure Recorded (s s₁ : State) (t : Nat) : Prop where
  callers_eq : s₁.callers = s.callers
  waiters_eq : s₁.waiters = s.waiters
  outcomes_eq : s₁.outcomes = s.outcomes
  asked_eq : s₁.asked = t :: s.asked

theorem Recorded.phase?_eq (h : Recorded s s₁ t) : s₁.phase? a = s.phase? a := by
  simp only [phase?, h.callers_eq]

theorem Recorded.unserved (h : Recorded s s₁ t) (hv : s.Unserved a) : s₁.Unserved a := by
  refine ⟨h.phase?_eq ▸ hv.1, fun c hc => hv.2 c ?_⟩
  rwa [h.outcomes_eq] at hc

theorem entered_fail (h : Recorded s s₁ t) (ht : s.Unserved t) (e : Error) :
    Entered s (s₁.fail t e) t where
  others v hv := by rw [phase?_fail, if_neg hv, h.phase?_eq]
  unserved v hv hu := (acted_fail e).unserved v (h.unserved hu)
  not_queued := by simp
  unserved_new _ := (acted_fail e).unserved t (h.unserved ht)
  waiters_eq := h.waiters_eq
  asked_eq := h.asked_eq

/-- With nobody in line a new caller may be given something. -/
theorem entered_setPhase (h : Recorded s s₁ t) (hw : s.waiters = []) (hp : p ≠ .queued) :
    Entered s (s₁.setPhase t p) t where
  others v hv := by rw [phase?_setPhase, if_neg hv, h.phase?_eq]
  unserved v hv hu := by
    have hu := h.unserved hu
    refine ⟨?_, hu.2⟩
    rw [phase?_setPhase, if_neg hv]
    exact hu.1
  not_queued := by simpa using hp
  unserved_new hne := absurd hw hne
  waiters_eq := h.waiters_eq
  asked_eq := h.asked_eq

theorem entered_hold (h : Recorded s s₁ t) (hw : s.waiters = []) : Entered s (s₁.hold t c) t := by
  have he : Entered s (s₁.setPhase t (.holding c)) t := entered_setPhase h hw (by simp)
  refine ⟨he.others, fun v hv hu => ⟨(he.unserved v hv hu).1, fun d hd => ?_⟩, he.not_queued,
    fun hne => absurd hw hne, he.waiters_eq, he.asked_eq⟩
  rcases List.mem_append.mp hd with hd | hd
  · exact (he.unserved v hv hu).2 d hd
  · exact hv (Prod.mk.inj (List.mem_singleton.mp hd)).1

/-- However a new caller is answered, the line stays in order. -/
theorem lined_admitting (h : s.Lined) (hb : s.Balanced 0) (ht : t ∉ s.asked)
    (hout : Admitting { s with asked := t :: s.asked } t s₁) : s₁.Lined := by
  have hfresh := h.fresh t ht
  have hs := balanced_swept (balanced_withAsked hb t)
  have hr : Recorded s { s with asked := t :: s.asked } t := ⟨rfl, rfl, rfl, rfl⟩
  have hr' : Recorded s (swept { s with asked := t :: s.asked }) t := ⟨rfl, rfl, rfl, rfl⟩
  cases hout with
  | closed hc => exact lined_entered h ht (entered_fail hr hfresh _)
  | busy hc hi hm hf => exact lined_entered h ht (entered_fail hr' hfresh _)
  | reused hc i rest hi =>
    have hw : s.waiters = [] := by
      rcases hs.idle_or_waiters with he | hw
      · exact absurd (hi.symm.trans he) (List.cons_ne_nil _ _)
      · exact hw
    exact lined_entered h ht (entered_hold ⟨rfl, rfl, rfl, rfl⟩ hw)
  | dials hc hi hm =>
    -- while anybody waits, every admission is in use
    have hw : s.waiters = [] := by
      by_contra hne
      exact absurd hm (by rw [(hs.full_of_waiters hne).2]; exact Nat.lt_irrefl _)
    exact lined_entered h ht (entered_setPhase ⟨rfl, rfl, rfl, rfl⟩ hw (by simp))
  | queues hc hi hm hf =>
    obtain ⟨h₁, h₂, h₃, h₄, h₅⟩ := lined_enqueue h ht
    exact ⟨h₁, h₂, h₃, h₄, h₅⟩

/-- Nobody stands in the line of a closed pool. -/
theorem lined_close (h : s.Lined) : s.close.Lined := by
  have hphase (v : Nat) : s.close.phase? v =
      (s.phase? v).map fun p => if p == .queued then .refused else p := phase?_refuseAll
  have hnone (v : Nat) : s.close.phase? v ≠ some .queued := by
    rw [hphase]
    intro hq
    obtain ⟨p, -, hp⟩ := Option.map_eq_some_iff.mp hq
    split at hp
    · simp at hp
    · rename_i hne
      simp [hp] at hne
  refine ⟨h.asked_nodup, List.nil_sublist _, fun v hv => absurd hv (hnone v), fun v hv => ?_,
    fun a v hav hq => absurd hq (hnone a)⟩
  have hp : s.phase? v = none :=
    (h.fresh v hv).1.resolve_right fun hq => hv (h.asked_of_mem (h.mem_of_queued v hq))
  exact ⟨.inl (by rw [hphase, hp]; rfl), (h.fresh v hv).2⟩

/-- Every step leaves the line in order. -/
theorem lined_step (h : s.Lined) (hb : s.Balanced 0) (x : Step) : (s.step x).Lined := by
  have hx := hb.stepping x
  generalize s.step x = s' at hx
  have hforget (t : Nat) : (s.forget t).Lined := lined_acted h acted_forget
  cases hx with
  | rests => exact h
  | asks t s' ht hp ha => exact lined_admitting h hb ht ha
  | takes x t c hx hp => exact lined_acted h (acted_hold hp (by simp))
  | dials x t hx hp => exact lined_acted h (acted_startDial hp)
  | fails x t p e hx hp hn => exact lined_acted h (acted_fail e)
  | opens t c hp => exact lined_acted h (acted_hold hp (by simp))
  | opensNot t c e hp => exact lined_freeSlot (lined_acted h (acted_fail e))
  | releases t c hp => exact lined_giveBack (hforget t)
  | drops t c p hp hc => exact lined_freeSlot (lined_drop (hforget t))
  | frees t p hp hn => exact lined_freeSlot (hforget t)
  | leaves t p hp hn => exact hforget t
  | closes => exact lined_close h
  | passes span =>
    obtain ⟨h₁, h₂, h₃, h₄, h₅⟩ := h
    exact ⟨h₁, h₂, h₃, h₄, h₅⟩

theorem lined_run (h : s.Lined) (hb : s.Balanced 0) (steps : List Step) : (s.run steps).Lined := by
  induction steps generalizing s with
  | nil => exact h
  | cons x rest ih => exact ih (lined_step h hb x) (balanced_step hb x)

theorem lined_ofConfig {config : PoolConfig} (h : ofConfig config = .ok s) : s.Lined := by
  unfold ofConfig at h
  split at h
  · cases h
  · cases h
    refine ⟨List.nodup_nil, List.nil_sublist _, fun v hv => ?_, fun v _ =>
      ⟨.inl rfl, fun c hc => ?_⟩, fun a v _ hv => ?_⟩
    · cases hv
    · cases hc
    · cases hv

end RemoteCall.Pool.State
