import RemoteCall.Proofs.Pool.Admission

/-! Every connection is in one place: idle, with one caller, or closed.

A step moves connections and makes or loses none, but for a dial, which adds the next number and
takes it back if it fails. Places are compared up to their order. -/
namespace RemoteCall.Pool.State
variable {s s' : State} {t u c n w : Nat} {p q : Phase} {rest : List Nat}

/-- Where connections are, also those that are being opened and those that were closed. -/
def places (s : State) : List Nat := s.connections ++ s.dropped

theorem connections_forget (h : s.tickets.Nodup) (hp : s.phase? t = some p) :
    s.connections.Perm (p.connections ++ (s.forget t).connections) := by
  have hc := (callers_perm h hp).flatMap_right (·.phase.connections)
  apply List.perm_iff_count.mpr
  intro a
  have ha := List.perm_iff_count.mp hc a
  simp only [connections, List.flatMap_cons, List.count_append] at ha ⊢
  have hi : (s.forget t).idle = s.idle := rfl
  rw [hi]
  omega

theorem places_forget (h : s.tickets.Nodup) (hp : s.phase? t = some p) :
    s.places.Perm (p.connections ++ (s.forget t).places) := by
  rw [places, places, ← List.append_assoc]
  exact (connections_forget h hp).append_right _

theorem places_setPhase : (s.setPhase t p).places.Perm (p.connections ++ (s.forget t).places) := by
  apply List.perm_iff_count.mpr
  intro a
  have hc : (s.setPhase t p).callers = ⟨t, p⟩ :: (s.forget t).callers := rfl
  have hi : (s.setPhase t p).idle = (s.forget t).idle := rfl
  have hd : (s.setPhase t p).dropped = (s.forget t).dropped := rfl
  simp only [places, connections, hc, hi, hd, List.flatMap_cons, List.count_append]
  omega

theorem places_hold : (s.hold t c).places.Perm (c :: (s.forget t).places) :=
  @places_setPhase s t (.holding c)

/-- A caller that keeps its connections keeps all connections in their places. -/
theorem places_replace (h : s.tickets.Nodup) (hp : s.phase? t = some p)
    (hq : q.connections = p.connections) : (s.setPhase t q).places.Perm s.places := by
  have hf := places_forget h hp
  rw [← hq] at hf
  exact places_setPhase.trans hf.symm

theorem places_drop : (s.drop c).places.Perm (c :: s.places) := by
  have hd : (s.drop c).places = s.places ++ [c] := (List.append_assoc _ _ _).symm
  rw [hd]
  exact List.perm_append_singleton c s.places

/-- What comes first in line gets a connection or none; it had none before. -/
theorem places_hand (h : s.tickets.Nodup) (hl : s.line = w :: rest) (x : Handoff) :
    ((s.withLine rest).setPhase w (.handed x)).places.Perm
      ((Phase.handed x).connections ++ s.places) := by
  have hq : (s.withLine rest).phase? w = some .queued := (line_eq_cons hl).1
  have hf : (s.withLine rest).places.Perm ((s.withLine rest).forget w).places := places_forget h hq
  exact places_setPhase.trans (hf.symm.append_left _)

theorem places_freeSlot (h : s.tickets.Nodup) : s.freeSlot.places.Perm s.places := by
  unfold freeSlot
  split
  · exact List.Perm.refl _
  · rename_i w rest hl
    exact places_hand h hl .slot

/-- A connection that is given back has a place again. -/
theorem places_giveBack (h : s.tickets.Nodup) : (s.giveBack c).places.Perm (c :: s.places) := by
  unfold giveBack
  split
  · rename_i w rest hl
    exact places_hand h hl (.connection c)
  · dsimp only
    split
    · apply List.perm_iff_count.mpr
      intro a
      simp only [places, connections, withIdle, withLine, List.map_append,
        List.map_cons, List.map_nil, List.count_append, List.count_cons, List.count_nil]
      omega
    · exact places_drop

theorem places_swept : s.swept.places.Perm s.places := by
  have hl := List.takeWhile_append_dropWhile (p := s.isExpired) (l := s.idle)
  apply List.perm_iff_count.mpr
  intro a
  have ha := congrArg (fun l => (l.map (·.connection)).count a) hl
  simp only [List.map_append, List.count_append] at ha
  simp only [places, connections, swept, sweep, takeBack, List.count_append]
  omega

inductive Moved (s s' : State) : Prop
  | same (hp : s'.places.Perm s.places) (hn : s'.next = s.next)
  | opening (hp : s'.places.Perm (s.next :: s.places)) (hn : s'.next = s.next + 1)
  | unopened (t c : Nat) (ht : s.phase? t = some (.dialing c)) (hp : s.places.Perm (c :: s'.places))
    (hn : s'.next = s.next)

theorem moved_replace (h : s.tickets.Nodup) (hp : s.phase? t = some p)
    (hq : q.connections = p.connections) (r : Result Nat) :
    Moved s ((s.setPhase t q).answer t r) :=
  .same (places_replace h hp hq) rfl

theorem moved_startDial (h : (s.forget t).places.Perm s.places) : Moved s (s.startDial t) := by
  have hs : (s.startDial t).places.Perm (s.next :: (s.forget t).places) := places_setPhase
  exact .opening (hs.trans (h.cons _)) rfl

theorem moved_admitting (hp : s.phase? t = none) (hout : Admitting s t s') : Moved s s' := by
  have hs : s.swept.phase? t = none := hp
  cases hout with
  | closed hc =>
    refine .same ?_ rfl
    change (s.forget t).places.Perm s.places
    rw [forget_of_none hp]
  | busy hc hi hm hf =>
    refine .same ?_ rfl
    change (s.swept.forget t).places.Perm s.places
    rw [forget_of_none hs]
    exact places_swept
  | reused hc i rest hi =>
    refine .same ?_ rfl
    have hf : (s.swept.withIdle rest).forget t = s.swept.withIdle rest := forget_of_none hs
    have hset : ((s.swept.withIdle rest).hold t i.connection).places.Perm
        (i.connection :: ((s.swept.withIdle rest).forget t).places) := places_hold
    have hi : s.swept.places = i.connection :: (s.swept.withIdle rest).places := by
      simp only [places, connections, hi, List.map_cons, List.cons_append]
      rfl
    rw [hf, ← hi] at hset
    exact hset.trans places_swept
  | dials hc hi hm =>
    -- the next number is in no place yet
    have hf : ({ s.swept with admitted := s.swept.admitted + 1 } : State).forget t =
        { s.swept with admitted := s.swept.admitted + 1 } := forget_of_none hs
    have hset : (({ s.swept with admitted := s.swept.admitted + 1 } : State).startDial
        t).places.Perm
        (s.next :: (({ s.swept with admitted := s.swept.admitted + 1 } : State).forget t).places) :=
      places_setPhase
    rw [hf] at hset
    exact .opening (hset.trans (places_swept.cons _)) rfl
  | queues hc hi hm hf =>
    refine .same ?_ rfl
    have hf : (s.swept.withLine (s.waiters ++ [t])).forget t =
        s.swept.withLine (s.waiters ++ [t]) :=
      forget_of_none hs
    have hset : ((s.swept.withLine (s.waiters ++ [t])).setPhase t .queued).places.Perm
        ((s.swept.withLine (s.waiters ++ [t])).forget t).places := places_setPhase
    rw [hf] at hset
    exact hset.trans places_swept

theorem moved_close : Moved s s.close := by
  have hr : s.refuseAll.callers.flatMap (·.phase.connections) =
      s.callers.flatMap (·.phase.connections) := by
    simp only [refuseAll, List.flatMap_map]
    apply List.flatMap_congr
    intro a _
    by_cases hq : a.phase = .queued <;> simp [hq, Phase.connections]
  refine .same ?_ rfl
  apply List.perm_iff_count.mpr
  intro a
  have hc : s.close.callers = s.refuseAll.callers := rfl
  have hi : s.close.idle = [] := rfl
  have hd : s.close.dropped = s.dropped ++ s.idle.map (·.connection) := rfl
  simp only [places, connections, hc, hi, hd, hr, List.map_nil, List.nil_append, List.count_append]
  omega

/-- A step moves connections, and opens or closes them, but doubles none. -/
theorem moved_step (h : s.Balanced 0) (x : Step) : Moved s (s.step x) := by
  have ht := h.tickets_nodup
  have hx := h.stepping x
  generalize s.step x = s' at hx
  cases hx with
  | rests => exact .same (List.Perm.refl _) rfl
  | asks t s' hasked hp ha =>
    rcases moved_admitting (s := { s with asked := t :: s.asked }) hp
      ha with ⟨hm, hn⟩ | ⟨hm, hn⟩ | ⟨v, c, hv, hm, hn⟩
    · exact .same hm hn
    · exact .opening hm hn
    · exact .unopened v c hv hm hn
  | takes x t c hx hp => exact moved_replace (q := .holding c) ht hp rfl _
  | dials x t hx hp => exact moved_startDial (places_forget ht hp).symm
  | fails x t p e hx hp hn =>
    have hf := places_forget ht hp
    rcases hn with rfl | rfl <;> exact .same hf.symm rfl
  | opens t c hp => exact moved_replace (q := .holding c) ht hp rfl _
  | opensNot t c e hp =>
    have hf : ((s.fail t e).freeSlot).places.Perm (s.forget t).places :=
      places_freeSlot (nodup_tickets_forget ht)
    exact .unopened t c hp ((places_forget ht hp).trans (hf.symm.cons c)) next_freeSlot
  | releases t c hp =>
    have hg := places_giveBack (c := c) (nodup_tickets_forget (t := t) ht)
    exact .same (hg.trans (places_forget ht hp).symm) next_giveBack
  | drops t c p hp hc =>
    have hf : s.places.Perm (c :: (s.forget t).places) := by
      rcases hc with rfl | rfl <;> exact places_forget ht hp
    have hd : ((s.forget t).drop c).freeSlot.places.Perm ((s.forget t).drop c).places :=
      places_freeSlot (nodup_tickets_forget (t := t) ht)
    exact .same (hd.trans (places_drop.trans hf.symm)) next_freeSlot
  | frees t p hp hn =>
    have hf := places_forget ht hp
    have hg := places_freeSlot (nodup_tickets_forget (t := t) ht)
    rcases hn with rfl | ⟨c, rfl⟩
    · exact .same (hg.trans hf.symm) next_freeSlot
    · exact .unopened t c hp (hf.trans (hg.symm.cons c)) next_freeSlot
  | leaves t p hp hn =>
    have hf := places_forget ht hp
    rcases hn with rfl | rfl <;> exact .same hf.symm rfl
  | closes => exact moved_close
  | passes span => exact .same (List.Perm.refl _) rfl

/-- No connection is in two places, and numbers are given out in order. -/
structure Owned (s : State) : Prop where
  nodup : s.places.Nodup
  lt_next : ∀ c ∈ s.places, c < s.next

/-- Where connections are only moved, each stays in one place. -/
theorem owned_moved (h : s.Owned) (hm : Moved s s') : s'.Owned := by
  rcases hm with ⟨hp, hn⟩ | ⟨hp, hn⟩ | ⟨t, c, ht, hp, hn⟩
  · exact ⟨hp.nodup_iff.mpr h.nodup, fun c hc => hn.symm ▸ h.lt_next c (hp.mem_iff.mp hc)⟩
  -- the new number is greater than all that are in some place
  · refine ⟨hp.nodup_iff.mpr (List.nodup_cons.mpr ⟨fun hc => ?_, h.nodup⟩), fun c hc => ?_⟩
    · exact Nat.lt_irrefl _ (h.lt_next _ hc)
    · rw [hn]
      rcases List.mem_cons.mp (hp.mem_iff.mp hc) with rfl | hc
      · exact Nat.lt_succ_self _
      · exact Nat.lt_succ_of_lt (h.lt_next c hc)
  · have hd := hp.nodup_iff.mp h.nodup
    refine ⟨(List.nodup_cons.mp hd).2, fun a ha => ?_⟩
    exact hn.symm ▸ h.lt_next a (hp.mem_iff.mpr (List.mem_cons_of_mem c ha))

theorem owned_run (h : s.Balanced 0) (ho : s.Owned) (steps : List Step) : (s.run steps).Owned := by
  induction steps generalizing s with
  | nil => exact ho
  | cons x rest ih => exact ih (balanced_step h x) (owned_moved ho (moved_step h x))

theorem owned_ofConfig {config : PoolConfig} (h : ofConfig config = .ok s) : s.Owned := by
  unfold ofConfig at h
  split at h
  · cases h
  · cases h
    exact ⟨List.nodup_nil, fun c hc => absurd hc List.not_mem_nil⟩

/-- What one caller has to do with is with no other caller, not idle and not closed. -/
theorem Owned.not_mem_forget (ho : s.Owned) (h : s.tickets.Nodup) (hp : s.phase? t = some p)
    (hc : c ∈ p.connections) : c ∉ (s.forget t).places := by
  have hd := (places_forget h hp).nodup_iff.mp ho.nodup
  exact fun hf => (List.nodup_append.mp hd).2.2 c hc c hf rfl

theorem mem_places (h : s.tickets.Nodup) (hp : s.phase? t = some p) (hc : c ∈ p.connections) :
    c ∈ s.places :=
  (places_forget h hp).mem_iff.mpr (List.mem_append_left _ hc)

/-- No two callers have one connection. -/
theorem Owned.eq_of_mem (ho : s.Owned) (h : s.tickets.Nodup) (hp : s.phase? t = some p)
    (hq : s.phase? u = some q) (hcp : c ∈ p.connections) (hcq : c ∈ q.connections) : t = u := by
  by_contra hne
  have hu : (s.forget t).phase? u = some q := by
    rw [phase?_forget, if_neg (Ne.symm hne), hq]
  exact ho.not_mem_forget h hp hcp (mem_places (nodup_tickets_forget h) hu hcq)

end RemoteCall.Pool.State
