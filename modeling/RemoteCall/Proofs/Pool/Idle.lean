import RemoteCall.Proofs.Pool.Fairness

/-! The idle connections of a pool: which they are after a step, in which order, and since when.

A connection comes to the end of the line of idle ones when its caller gives it back and nobody
waits for it, and leaves it from the front, when a caller asks, or with all others, when the pool is
closed. So the line is in the order in which they became idle. -/
namespace RemoteCall.Pool.State
variable {s s' s₀ : State} {t u c w : Nat} {p : Phase} {x : Step} {steps : List Step}

theorem step_release (hp : s.phase? t = some (.holding c)) :
    s.step (.release t) = (s.forget t).giveBack c := by
  simp only [step, release, hp]

/-- A caller gives its connection back, and nobody waits for it. -/
theorem giveBack_of_liveLine_nil (hp : s.phase? t = some (.holding c)) (hl : s.liveLine = []) :
    if s.hasRoom then ((s.forget t).giveBack c).idle = s.idle ++ [⟨c, s.now⟩]
    else ((s.forget t).giveBack c).idle = s.idle ∧ c ∈ ((s.forget t).giveBack c).dropped := by
  have hleft : Left s (s.forget t) := left_forget hp (by simp)
  have hline : (s.forget t).line = [] := line_of_liveLine_nil (hleft.liveLine_eq.trans hl)
  have hroom : (s.forget t).hasRoom = s.hasRoom := rfl
  split
  · rename_i hr
    exact (passOn_connection (hleft.liveLine_eq.trans hl) (hroom.trans hr)).1
  · rename_i hr
    have hback := passOn_back (f := .connection c) (hleft.liveLine_eq.trans hl)
      fun h => absurd (hroom ▸ h) hr
    refine ⟨hback.1, ?_⟩
    simp only [giveBack, hline]
    split
    · rename_i hn
      exact absurd hn hr
    · exact List.mem_append_right _ (List.mem_singleton_self c)

/-- A caller gives its connection back to the first in line. -/
theorem giveBack_of_liveLine_cons (hn : s.waiters.Nodup) (hp : s.phase? t = some (.holding c))
    {rest : List Nat} (hl : s.liveLine = w :: rest) :
    ((s.forget t).giveBack c).phase? w = some (.handed (.connection c)) ∧
      ((s.forget t).giveBack c).idle = s.idle := by
  have hleft : Left s (s.forget t) := left_forget hp (by simp)
  have hpass := passOn_of_cons (s := s.forget t) hn (hleft.liveLine_eq.trans hl) (.connection c)
  exact ⟨hpass.1, hpass.2.2.2⟩

theorem admitting_step_ask (h : s.Balanced 0) (ht : t ∉ s.asked) :
    Admitting { s with asked := t :: s.asked } t (s.step (.ask t)) := by
  rw [step, if_neg ht]
  exact letIn_admitting h.idle_or_waiters

def idleAfter (s : State) : Step → List Idle
  | .ask t => if t ∈ s.asked then s.idle else (s.idle.dropWhile s.isExpired).tail
  | .release t =>
    match s.phase? t with
    | some (.holding c) => if s.liveLine = [] ∧ s.hasRoom = true then s.idle ++
        [⟨c, s.now⟩] else s.idle
    | _ => s.idle
  | .close => []
  | _ => s.idle

theorem idle_freeSlot : s.freeSlot.idle = s.idle := by
  unfold freeSlot
  split <;> rfl

theorem idle_receive : (s.receive t).idle = s.idle := by
  unfold receive
  split <;> rfl

/-- A new caller has the old ones closed, and takes the first of the others. -/
theorem idle_ask (h : s.Balanced 0) (ht : t ∉ s.asked) :
    (s.step (.ask t)).idle = (s.idle.dropWhile s.isExpired).tail := by
  have hadm := admitting_step_ask h ht
  have hswept : ({ s with asked := t :: s.asked } : State).swept.idle =
      s.idle.dropWhile s.isExpired := rfl
  generalize s.step (.ask t) = s' at hadm
  cases hadm with
  | closed hc =>
    have hnil : s.idle = [] := (h.empty_of_closed hc).1
    change s.idle = _
    rw [hnil]
    rfl
  | reused hc i rest hi =>
    rw [hswept] at hi
    rw [hi]
    rfl
  | dials hc hi | busy hc hi | queues hc hi =>
    rw [← hswept, hi]
    exact hi

/-- A connection comes to the end of the line if nobody waits for it and there is room. -/
theorem idle_giveBack (hn : s.waiters.Nodup) (hp : s.phase? t = some (.holding c)) :
    ((s.forget t).giveBack c).idle =
      if s.liveLine = [] ∧ s.hasRoom = true then s.idle ++ [⟨c, s.now⟩] else s.idle := by
  cases hl : s.liveLine with
  | cons w rest =>
    rw [if_neg fun hnil => List.cons_ne_nil w rest hnil.1]
    exact (giveBack_of_liveLine_cons hn hp hl).2
  | nil =>
    have hgive := giveBack_of_liveLine_nil hp hl
    by_cases hr : s.hasRoom = true
    · rw [if_pos hr] at hgive
      rw [if_pos ⟨rfl, hr⟩]
      exact hgive
    · rw [if_neg hr] at hgive
      rw [if_neg fun hroom => hr hroom.2]
      exact hgive.1

/-- What is idle after a step. -/
theorem idle_step (h : s.Balanced 0) (hn : s.waiters.Nodup) (x : Step) :
    (s.step x).idle = s.idleAfter x := by
  cases x with
  | ask t =>
    simp only [idleAfter]
    split
    · rename_i ht
      simp only [step, if_pos ht]
    · exact idle_ask h ‹_›
  | release t =>
    simp only [idleAfter]
    split
    · rename_i c hp
      rw [step_release hp]
      exact idle_giveBack hn hp
    · rename_i hp
      simp only [step, release]
  | receive t => exact idle_receive
  | expire t =>
    simp only [step, expire, idleAfter]
    split
    · rfl
    · exact idle_receive
  | dialed t r =>
    simp only [step, dialed, idleAfter]
    split
    · rfl
    · exact idle_freeSlot
    · rfl
  | abandon t =>
    simp only [step, abandon, idleAfter]
    split <;> first | exact idle_freeSlot | rfl
  | close => rfl
  | pass span => rfl

/-- The connection that a new caller takes from the idle ones. -/
def reused? (s : State) : Option Nat := (s.idle.dropWhile s.isExpired).head?.map (·.connection)

/-- A new caller closes the idle connections that are too old. -/
theorem dropped_step_ask (h : s.Balanced 0) (ht : t ∉ s.asked)
    (hc : c ∈ (s.idle.takeWhile s.isExpired).map (·.connection)) :
    c ∈ (s.step (.ask t)).dropped := by
  have hadm := admitting_step_ask h ht
  have hswept : c ∈ ({ s with asked := t :: s.asked } : State).swept.dropped :=
    List.mem_append_right _ hc
  generalize s.step (.ask t) = s' at hadm
  cases hadm with
  | closed hclosed =>
    have hnil : s.idle = [] := (h.empty_of_closed hclosed).1
    rw [hnil] at hc
    cases hc
  | reused | dials | busy | queues => exact hswept

/-- A new caller takes the first idle connection that is not too old. -/
theorem phase?_step_ask (h : s.Balanced 0) (ht : t ∉ s.asked) (hc : s.reused? = some c) :
    (s.step (.ask t)).phase? t = some (.holding c) := by
  have hadm := admitting_step_ask h ht
  obtain ⟨i, hi, rfl⟩ := Option.map_eq_some_iff.mp hc
  obtain ⟨rest, hrest⟩ : ∃ rest, s.idle.dropWhile s.isExpired = i :: rest :=
    List.head?_eq_some_iff.mp hi
  have hswept : ({ s with asked := t :: s.asked } : State).swept.idle = i :: rest := hrest
  generalize s.step (.ask t) = s' at hadm
  cases hadm with
  | closed hclosed =>
    have hnil : s.idle = [] := (h.empty_of_closed hclosed).1
    rw [hnil] at hrest
    cases hrest
  | reused hopen j more hj =>
    obtain ⟨rfl, -⟩ := List.cons_eq_cons.mp (hj.symm.trans hswept)
    exact phase?_hold.trans (if_pos rfl)
  | dials hopen hnil | busy hopen hnil | queues hopen hnil => cases hnil.symm.trans hswept

structure Ordered (s : State) : Prop where
  in_order : s.idle.Pairwise fun i j => i.lastActive ≤ j.lastActive
  le_now : ∀ i ∈ s.idle, i.lastActive ≤ s.now

theorem now_freeSlot : s.freeSlot.now = s.now := by
  unfold freeSlot
  split <;> rfl

theorem now_giveBack : (s.giveBack c).now = s.now := by
  unfold giveBack
  split
  · rfl
  · dsimp only
    split <;> rfl

/-- No step takes time back. -/
theorem now_le_step (h : s.Balanced 0) (x : Step) : s.now ≤ (s.step x).now := by
  have hstep := h.stepping x
  generalize s.step x = s' at hstep
  cases hstep with
  | passes span =>
    change s.now ≤ s.now + span
    omega
  | opensNot | drops | frees =>
    rw [now_freeSlot]
    exact Int.le_refl s.now
  | releases =>
    rw [now_giveBack]
    exact Int.le_refl s.now
  | asks t s' ht hp hadm =>
    cases hadm with
    | closed | reused | dials | busy | queues => exact Int.le_refl s.now
  | rests | takes | dials | fails | opens | leaves | closes => exact Int.le_refl s.now

/-- A step takes from the idle connections, or puts the one that is given back at their end. -/
theorem idleAfter_cases (s : State) (x : Step) : (s.idleAfter x).Sublist s.idle ∨
    ∃ t c, x = .release t ∧ s.phase? t = some (.holding c) ∧
    s.idleAfter x = s.idle ++ [⟨c, s.now⟩] := by
  cases x with
  | ask t =>
    left
    simp only [idleAfter]
    split
    · exact List.Sublist.refl _
    · exact (List.tail_sublist _).trans (List.dropWhile_sublist _)
  | release t =>
    simp only [idleAfter]
    split
    · rename_i c hp
      split
      · exact .inr ⟨t, c, rfl, hp, rfl⟩
      · exact .inl (List.Sublist.refl _)
    · exact .inl (List.Sublist.refl _)
  | close => exact .inl (List.nil_sublist _)
  | receive | expire | dialed | abandon | pass => exact .inl (List.Sublist.refl _)

/-- Connections become idle in the order in which they stand. -/
theorem ordered_step (h : s.Balanced 0) (hn : s.waiters.Nodup) (ho : s.Ordered) (x : Step) :
    (s.step x).Ordered := by
  have hnow := now_le_step h x
  have hidle := idle_step h hn x
  rcases s.idleAfter_cases x with hsub | ⟨t, c, -, -, hnew⟩
  · rw [← hidle] at hsub
    exact ⟨ho.in_order.sublist hsub, fun i hi => Int.le_trans (ho.le_now i (hsub.subset hi)) hnow⟩
  · rw [← hidle] at hnew
    -- the new one is the latest of all
    refine ⟨?_, ?_⟩
    · rw [hnew, List.pairwise_append]
      refine ⟨ho.in_order, List.pairwise_singleton _ _, ?_⟩
      intro i hi j hj
      rw [List.mem_singleton.mp hj]
      exact ho.le_now i hi
    · intro i hi
      rw [hnew, List.mem_append, List.mem_singleton] at hi
      rcases hi with hi | rfl
      · exact Int.le_trans (ho.le_now i hi) hnow
      · exact hnow

/-- A caller gave the connection back at the time that is noted with it, and it has been idle from
then on. -/
def IdleSince (s₀ : State) (steps : List Step) (i : Idle) : Prop :=
  ∃ earlier t later, steps = earlier ++ .release t :: later ∧
    (s₀.run earlier).phase? t = some (.holding i.connection) ∧ (s₀.run earlier).now = i.lastActive ∧
    ∀ part, part <+: later → i ∈ (s₀.run (earlier ++ .release t :: part)).idle

theorem run_concat : s₀.run (steps ++ [x]) = (s₀.run steps).step x := by
  simp only [run, List.foldl_append, List.foldl_cons, List.foldl_nil]

theorem idleSince_concat {i : Idle} (h : IdleSince s₀ steps i)
    (hi : i ∈ (s₀.run (steps ++ [x])).idle) : IdleSince s₀ (steps ++ [x]) i := by
  obtain ⟨earlier, t, later, rfl, hp, hnow, hsince⟩ := h
  refine ⟨earlier, t, later ++ [x], by simp, hp, hnow, ?_⟩
  intro part hpart
  rcases List.prefix_concat_iff.mp hpart with rfl | hpart
  · simpa using hi
  · exact hsince part hpart

end RemoteCall.Pool.State
