import RemoteCall.Proofs.Pool.Ownership

/-! A connection that is held stays with its holder until that lets go of it, and a connection that
can be used next was in use or idle before, or has just been opened. -/
namespace RemoteCall.Pool

namespace State
variable {s : State} {t u c d w n : Nat} {p : Phase} {x : Step}

/-- The connection is open, and the next call over it may be made. -/
inductive Usable (s : State) (c : Nat) : Prop
  | idle (i : Idle) (hi : i ∈ s.idle) (hc : i.connection = c)
  | handed (t : Nat) (hp : s.phase? t = some (.handed (.connection c)))
  | held (t : Nat) (hp : s.phase? t = some (.holding c))

theorem mem_connections (hp : s.phase? t = some p) (hc : c ∈ p.connections) :
    c ∈ s.connections := by
  obtain ⟨a, ha, rfl⟩ := Option.map_eq_some_iff.mp hp
  exact List.mem_append_right _ (List.mem_flatMap.mpr ⟨a, List.mem_of_find?_eq_some ha, hc⟩)

theorem Usable.mem_connections (h : s.Usable c) : c ∈ s.connections := by
  cases h with
  | idle i hi hc => exact List.mem_append_left _ (List.mem_map.mpr ⟨i, hi, hc⟩)
  | handed t hp => exact State.mem_connections hp (by simp [Phase.connections])
  | held t hp => exact State.mem_connections hp (by simp [Phase.connections])

theorem Owned.not_usable (ho : s.Owned) (hc : c ∈ s.dropped) : ¬ s.Usable c := fun h =>
  (List.nodup_append.mp ho.nodup).2.2 c h.mem_connections c hc rfl

/-- A connection that is being opened is with its caller only. -/
theorem Owned.not_usable_of_dialing (ho : s.Owned) (h : s.Balanced 0)
    (hp : s.phase? t = some (.dialing c)) : ¬ s.Usable c := by
  have hn := ho.not_mem_forget h.tickets_nodup hp (List.mem_singleton_self c)
  intro hu
  cases hu with
  | idle i hi hc =>
    exact hn (List.mem_append_left _ (List.mem_append_left _ (List.mem_map.mpr ⟨i, hi, hc⟩)))
  | handed u hq =>
    obtain rfl := ho.eq_of_mem h.tickets_nodup hp hq (List.mem_singleton_self c)
      (List.mem_singleton_self c)
    cases hp.symm.trans hq
  | held u hq =>
    obtain rfl := ho.eq_of_mem h.tickets_nodup hp hq (List.mem_singleton_self c)
      (List.mem_singleton_self c)
    cases hp.symm.trans hq

/-- A connection that a caller holds is not idle. -/
theorem Owned.not_idle_of_holding (ho : s.Owned) (h : s.Balanced 0)
    (hp : s.phase? t = some (.holding c)) {i : Idle} (hi : i ∈ s.idle) :
    i.connection ≠ c := fun hc =>
  ho.not_mem_forget h.tickets_nodup hp (List.mem_singleton_self c)
    (List.mem_append_left _ (List.mem_append_left _ (List.mem_map.mpr ⟨i, hi, hc⟩)))

theorem phase?_freeSlot (h : s.phase? u ≠ some .queued) : s.freeSlot.phase? u = s.phase? u := by
  unfold freeSlot
  split
  · simp
  · rename_i w rest hl
    have hne : u ≠ w := fun he => h (he ▸ (line_eq_cons hl).1)
    simp [hne]

theorem phase?_giveBack (h : s.phase? u ≠ some .queued) : (s.giveBack c).phase? u = s.phase? u := by
  unfold giveBack
  split
  · rename_i w rest hl
    have hne : u ≠ w := fun he => h (he ▸ (line_eq_cons hl).1)
    simp [hne]
  · dsimp only
    split <;> simp

theorem phase?_admitting {s' : State} (hout : Admitting s t s') (hne : u ≠ t) :
    s'.phase? u = s.phase? u := by
  cases hout with
  | closed hc => exact (phase?_fail _).trans (if_neg hne)
  | reused hc i rest hi => exact phase?_hold.trans (if_neg hne)
  | dials hc hi hm => exact phase?_startDial.trans (if_neg hne)
  | busy hc hi hm hf => exact (phase?_fail _).trans (if_neg hne)
  | queues hc hi hm hf => exact phase?_setPhase.trans (if_neg hne)

/-- A caller that is out of the line stays where it is, unless it does something itself. -/
theorem phase?_step_of_still (h : s.Balanced 0) (hp : s.phase? u = some p) (hq : p ≠ .queued)
    (hx : x.actor? = some u → s.step x = s) : (s.step x).phase? u = some p := by
  by_cases ha : x.actor? = some u
  · rw [hx ha, hp]
  have hstep := h.stepping x
  generalize s.step x = s' at hstep
  -- what another caller does leaves this one alone, and what becomes free goes to the line
  have hne {t : Nat} (ht : x.actor? = some t) : u ≠ t := by
    rintro rfl
    exact ha ht
  have hforget {t : Nat} (hut : u ≠ t) : (s.forget t).phase? u = some p := by
    rw [phase?_forget, if_neg hut, hp]
  have hfree {s₁ : State} (h₁ : s₁.phase? u = some p) : s₁.freeSlot.phase? u = some p := by
    rw [phase?_freeSlot (by simpa [h₁] using hq), h₁]
  cases hstep with
  | rests => exact hp
  | asks t s' ht hn hadm => exact (phase?_admitting hadm (hne rfl)).trans hp
  | takes x t d hx' ht => rw [phase?_hold, if_neg (hne hx'), hp]
  | dials x t hx' ht => rw [phase?_startDial, if_neg (hne hx'), hp]
  | fails x t p' e hx' ht hn => rw [phase?_fail, if_neg (hne hx'), hp]
  | opens t d ht => rw [phase?_hold, if_neg (hne rfl), hp]
  | opensNot t d e ht => exact hfree (hforget (hne rfl))
  | releases t d ht =>
    have hf := hforget (hne (t := t) rfl)
    rw [phase?_giveBack (by simpa [hf] using hq), hf]
  | drops t d p' ht hc => exact hfree (hforget (hne (t := t) rfl))
  | frees t p' ht hn => exact hfree (hforget (hne rfl))
  | leaves t p' ht hn => exact hforget (hne rfl)
  | closes =>
    have hclose : s.close.phase? u = (s.phase? u).map fun p =>
        if p == .queued then .refused else p :=
      phase?_refuseAll
    rw [hclose, hp, Option.map_some, if_neg (by simpa using hq)]
  | passes span => exact hp

/-- Nobody loses what it holds but by its own act. -/
theorem phase?_step_of_holding (h : s.Balanced 0) (hp : s.phase? u = some (.holding c))
    (hr : x ≠ .release u) (ha : x ≠ .abandon u) : (s.step x).phase? u = some (.holding c) := by
  refine phase?_step_of_still h hp (by simp) ?_
  intro hx
  cases x with
  | ask t =>
    obtain rfl : t = u := Option.some.inj hx
    exact if_pos (h.asked_of_mem t (mem_tickets.mpr (by simp [hp])))
  | receive t =>
    obtain rfl : t = u := Option.some.inj hx
    simp only [step, receive, hp]
  | expire t =>
    obtain rfl : t = u := Option.some.inj hx
    simp only [step, expire, receive, hp]
  | dialed t r =>
    obtain rfl : t = u := Option.some.inj hx
    simp only [step, dialed, hp]
  | release t => exact absurd (congrArg Step.release (Option.some.inj hx)) hr
  | abandon t => exact absurd (congrArg Step.abandon (Option.some.inj hx)) ha
  | close => cases hx
  | pass span => cases hx

/-- Only the idle connections and the callers count. -/
theorem usable_congr {s' : State} (hu : s'.Usable c) (hi : ∀ i ∈ s'.idle, i ∈ s.idle)
    (hc : s'.callers = s.callers) : s.Usable c := by
  have hphase (u : Nat) : s'.phase? u = s.phase? u := by simp only [phase?, hc]
  cases hu with
  | idle i him hic => exact .idle i (hi i him) hic
  | handed u hp => exact .handed u ((hphase u).symm.trans hp)
  | held u hp => exact .held u ((hphase u).symm.trans hp)

theorem usable_forget (hu : (s.forget t).Usable c) : s.Usable c := by
  cases hu with
  | idle i hi hc => exact .idle i hi hc
  | handed u hp =>
    rw [phase?_forget] at hp
    split at hp
    · cases hp
    · exact .handed u hp
  | held u hp =>
    rw [phase?_forget] at hp
    split at hp
    · cases hp
    · exact .held u hp

/-- A caller comes to a phase with connections that were usable before. -/
theorem usable_setPhase (hu : (s.setPhase t p).Usable c)
    (hp : p = .handed (.connection c) ∨ p = .holding c → s.Usable c) : s.Usable c := by
  cases hu with
  | idle i hi hc => exact .idle i hi hc
  | handed u hq =>
    rw [phase?_setPhase] at hq
    split at hq
    · exact hp (.inl (Option.some.inj hq))
    · exact .handed u hq
  | held u hq =>
    rw [phase?_setPhase] at hq
    split at hq
    · exact hp (.inr (Option.some.inj hq))
    · exact .held u hq

theorem usable_fail {e : Error} (hu : (s.fail t e).Usable c) : s.Usable c :=
  usable_forget (usable_congr hu (fun _ => id) rfl)

theorem usable_hold (hu : (s.hold t d).Usable c) (hd : d = c → s.Usable c) : s.Usable c := by
  refine usable_setPhase (p := .holding d) (usable_congr hu (fun _ => id) rfl) ?_
  intro h
  rcases h with h | h
  · cases h
  · exact hd (by cases h; rfl)

theorem usable_freeSlot (hu : s.freeSlot.Usable c) : s.Usable c := by
  unfold freeSlot at hu
  split at hu
  · exact usable_congr hu (fun _ => id) rfl
  · exact usable_congr (usable_setPhase hu (by simp)) (fun _ => id) rfl

theorem usable_giveBack (hu : (s.giveBack d).Usable c) : s.Usable c ∨ c = d := by
  by_cases hcd : c = d
  · exact .inr hcd
  left
  unfold giveBack at hu
  split at hu
  · refine usable_congr (usable_setPhase hu ?_) (fun _ => id) rfl
    intro h
    simp [Ne.symm hcd] at h
  · dsimp only at hu
    split at hu
    · cases hu with
      | idle i hi hc =>
        rcases List.mem_append.mp hi with hi | hi
        · exact .idle i hi hc
        · rw [List.mem_singleton.mp hi] at hc
          exact absurd hc.symm hcd
      | handed u hp => exact .handed u hp
      | held u hp => exact .held u hp
    · exact usable_congr hu (fun _ => id) rfl

theorem usable_admitting {s' : State} (hout : Admitting s t s') (hu : s'.Usable c) :
    s.Usable c := by
  have hswept : ∀ i ∈ s.swept.idle, i ∈ s.idle := fun i hi => List.dropWhile_suffix _ |>.subset hi
  cases hout with
  | closed hc => exact usable_fail hu
  | busy hc hi hm hf => exact usable_congr (usable_fail hu) hswept rfl
  | reused hc i rest hi =>
    have hsub : ∀ j ∈ i :: rest, j ∈ s.idle := fun j hj => hswept j (hi.symm ▸ hj)
    by_cases hic : i.connection = c
    · exact .idle i (hsub i List.mem_cons_self) hic
    · exact usable_congr (usable_hold hu fun he => absurd he hic)
        (fun j hj => hsub j (List.mem_cons_of_mem i hj)) rfl
  | dials hc hi hm => exact usable_congr (usable_setPhase hu (by simp)) hswept rfl
  | queues hc hi hm hf => exact usable_congr (usable_setPhase hu (by simp)) hswept rfl

theorem usable_close (hu : s.close.Usable c) : s.Usable c := by
  have hphase {u : Nat} {p : Phase} (hp : s.close.phase? u = some p) (hr : p ≠ .refused) :
      s.phase? u = some p := by
    have hc : s.close.phase? u = (s.phase? u).map fun p => if p == .queued then .refused else p :=
      phase?_refuseAll
    obtain ⟨q, hq, hqp⟩ := Option.map_eq_some_iff.mp (hc.symm.trans hp)
    split at hqp
    · exact absurd hqp.symm hr
    · rw [hq, hqp]
  cases hu with
  | idle i hi hc => cases hi
  | handed u hp => exact .handed u (hphase hp (by simp))
  | held u hp => exact .held u (hphase hp (by simp))

/-- A connection that can be used could be used before, unless it was being opened. -/
theorem usable_step (h : s.Balanced 0) (hu : (s.step x).Usable c) :
    s.Usable c ∨ ∃ t, x = .dialed t (.ok ()) ∧ s.phase? t = some (.dialing c) := by
  have hx := h.stepping x
  generalize s.step x = s' at hx hu
  cases hx with
  | rests => exact .inl hu
  | asks t s' ht hn hadm => exact .inl (usable_congr (usable_admitting hadm hu) (fun _ => id) rfl)
  | takes x t d hx hp => exact .inl (usable_hold hu fun hd => .handed t (hd ▸ hp))
  | dials x t hx hp => exact .inl (usable_congr (usable_setPhase hu (by simp)) (fun _ => id) rfl)
  | fails x t p e hx hp hn => exact .inl (usable_fail hu)
  | opens t d hp =>
    by_cases hd : d = c
    · exact .inr ⟨t, rfl, hd ▸ hp⟩
    · exact .inl (usable_hold hu fun he => absurd he hd)
  | opensNot t d e hp => exact .inl (usable_fail (usable_freeSlot hu))
  | releases t d hp =>
    rcases usable_giveBack hu with hu | rfl
    · exact .inl (usable_forget hu)
    · exact .inl (.held t hp)
  | drops t d p hp hc =>
    exact .inl (usable_forget (usable_congr (usable_freeSlot hu) (fun _ => id) rfl))
  | frees t p hp hn => exact .inl (usable_forget (usable_freeSlot hu))
  | leaves t p hp hn => exact .inl (usable_forget hu)
  | closes => exact .inl (usable_close hu)
  | passes span => exact .inl (usable_congr hu (fun _ => id) rfl)

/-- A connection whose holder is gone is closed for good. -/
theorem abandon_holding (h : s.Balanced 0) (ho : s.Owned) (hp : s.phase? t = some (.holding c)) :
    c ∈ (s.step (.abandon t)).dropped ∧ ¬ (s.step (.abandon t)).Usable c := by
  have hd : (s.step (.abandon t)).dropped = s.dropped ++ [c] := by
    simp only [step, abandon, hp]
    unfold freeSlot
    split <;> rfl
  have hm : c ∈ (s.step (.abandon t)).dropped := by simp [hd]
  exact ⟨hm, (owned_moved ho (moved_step h (.abandon t))).not_usable hm⟩

end State
end RemoteCall.Pool
