import RemoteCall.Proofs.Pool.Line

/-! What becomes free is never lost: the first in line gets it, or it is kept for the next caller.
-/
namespace RemoteCall.Pool.State
variable {s s₁ : State} {x : Step} {f : Handoff} {t c w : Nat} {p : Phase} {rest : List Nat}

def freed (s : State) : Step → Option Handoff
  | .release t =>
    match s.phase? t with
    | some (.holding c) => some (.connection c)
    | _ => none
  | .abandon t =>
    match s.phase? t with
    | some p => if p.isAdmitted then some .slot else none
    | none => none
  | .dialed t (.error _) =>
    match s.phase? t with
    | some (.dialing _) => some .slot
    | _ => none
  | _ => none

def passOn (s : State) : Handoff → State
  | .connection c => s.giveBack c
  | .slot => s.freeSlot

structure Left (s s₁ : State) : Prop where
  liveLine_eq : s₁.liveLine = s.liveLine
  waiters_eq : s₁.waiters = s.waiters
  idle_eq : s₁.idle = s.idle
  admitted_eq : s₁.admitted = s.admitted
  config_eq : s₁.config = s.config
  closed_eq : s₁.closed = s.closed
  now_eq : s₁.now = s.now

theorem left_forget (hp : s.phase? t = some p) (hq : p ≠ .queued) : Left s (s.forget t) := by
  refine ⟨?_, rfl, rfl, rfl, rfl, rfl, rfl⟩
  apply List.filter_congr
  intro v _
  by_cases hv : v = t
  · subst hv
    simp [isLive, hp, hq]
  · simp [isLive, hv]

theorem left_drop (h : Left s s₁) : Left s (s₁.drop c) := by
  obtain ⟨h₁, h₂, h₃, h₄, h₅, h₆, h₇⟩ := h
  exact ⟨h₁, h₂, h₃, h₄, h₅, h₆, h₇⟩

theorem left_answer (h : Left s s₁) (r : Result Nat) : Left s (s₁.answer t r) := by
  obtain ⟨h₁, h₂, h₃, h₄, h₅, h₆, h₇⟩ := h
  exact ⟨h₁, h₂, h₃, h₄, h₅, h₆, h₇⟩

/-- A step that sets something free passes it on when its caller is gone. -/
theorem step_freed (hx : s.freed x = some f) : ∃ s₁, Left s s₁ ∧ s.step x = s₁.passOn f := by
  -- only a caller that goes, or whose dial has failed, sets anything free
  cases x with
  | release t =>
    simp only [freed] at hx
    split at hx
    · rename_i c hp
      cases hx
      exact ⟨s.forget t, left_forget hp (by simp), by simp [step, release, hp, passOn]⟩
    · cases hx
  | abandon t =>
    simp only [freed] at hx
    split at hx
    · rename_i p hp
      have hf : p.isAdmitted = true ∧ f = .slot := by
        cases ha : p.isAdmitted <;> simp_all
      obtain ⟨ha, rfl⟩ := hf
      have hq : p ≠ .queued := by
        rintro rfl
        cases ha
      have hl := left_forget hp hq
      rcases p with _ | (c | _) | _ | c | c <;> simp only [step, abandon, hp, passOn]
      · exact absurd rfl hq
      · exact ⟨_, left_drop hl, rfl⟩
      · exact ⟨_, hl, rfl⟩
      · cases ha
      · exact ⟨_, hl, rfl⟩
      · exact ⟨_, left_drop hl, rfl⟩
    · cases hx
  | dialed t r =>
    cases r with
    | ok _ => cases hx
    | error e =>
      simp only [freed] at hx
      split at hx
      · rename_i c hp
        cases hx
        exact ⟨s.fail t e, left_answer (left_forget hp (by simp))
          _, by simp [step, dialed, hp, passOn]⟩
      · cases hx
  | ask _ => cases hx
  | receive _ => cases hx
  | expire _ => cases hx
  | close => cases hx
  | pass _ => cases hx

theorem line_of_liveLine_nil (h : s.liveLine = []) : s.line = [] := by
  cases hl : s.line with
  | nil => rfl
  | cons w rest => exact absurd (h.symm.trans (liveLine_of_line_cons hl)) (by simp)

theorem line_of_liveLine_cons (h : s.liveLine = w :: rest) :
    ∃ more, s.line = w :: more ∧ more.filter s.isLive = rest := by
  cases hl : s.line with
  | nil => exact absurd (h.symm.trans (liveLine_of_line_nil hl)) (by simp)
  | cons v more =>
    obtain ⟨rfl, hr⟩ := List.cons_eq_cons.mp ((liveLine_of_line_cons hl).symm.trans h)
    exact ⟨more, rfl, hr⟩

/-- Whoever is first in line is given it, and the others move up. -/
theorem passOn_of_cons (hn : s.waiters.Nodup) (hl : s.liveLine = w :: rest) (f : Handoff) :
    (s.passOn f).phase? w = some (.handed f) ∧ (s.passOn f).liveLine = rest ∧
      (s.passOn f).admitted = s.admitted ∧ (s.passOn f).idle = s.idle := by
  obtain ⟨more, hline, hmore⟩ := line_of_liveLine_cons hl
  have hpass : s.passOn f = (s.withLine more).setPhase w (.handed f) := by
    cases f <;> simp only [passOn, giveBack, freeSlot, hline]
  obtain ⟨-, gone, hg, -⟩ := line_eq_cons hline
  -- nobody is on the list twice, so those behind it wait as before
  have hw : w ∉ more := by
    rw [hg] at hn
    exact (List.nodup_cons.mp (List.nodup_append.mp hn).2.1).1
  rw [hpass]
  refine ⟨by simp, ?_, rfl, rfl⟩
  rw [← hmore]
  apply List.filter_congr
  intro v hv
  have hne : v ≠ w := fun he => hw (he ▸ hv)
  simp [isLive, hne]

/-- A connection is worth keeping if nobody waits for it. -/
def hasRoom (s : State) : Bool := !s.closed && s.idle.length < s.config.maxIdle.toNat

theorem passOn_connection (hl : s.liveLine = []) (hr : s.hasRoom = true) :
    (s.passOn (.connection c)).idle = s.idle ++ [⟨c, s.now⟩] ∧
      (s.passOn (.connection c)).admitted = s.admitted := by
  simp only [passOn, giveBack, line_of_liveLine_nil hl]
  split
  · exact ⟨rfl, rfl⟩
  · rename_i hn
    exact absurd hr hn

theorem passOn_back (hl : s.liveLine = []) (hf : s.hasRoom = true → f = .slot) :
    (s.passOn f).idle = s.idle ∧ (s.passOn f).admitted = s.admitted - 1 ∧
      (s.passOn f).overdrawn = s.overdrawn + (1 - s.admitted) := by
  cases f with
  | slot =>
    simp only [passOn, freeSlot, line_of_liveLine_nil hl]
    exact ⟨rfl, rfl, rfl⟩
  | connection c =>
    have hr : s.hasRoom ≠ true := fun h => by cases hf h
    simp only [passOn, giveBack, line_of_liveLine_nil hl]
    split
    · rename_i hn
      exact absurd hn hr
    · exact ⟨rfl, rfl, rfl⟩

def onceTaken (s : State) : Handoff → Phase
  | .connection c => .holding c
  | .slot => .dialing s.next

/-- A caller takes what it was given, also when its wait is over. -/
theorem phase?_take (hp : s.phase? t = some (.handed f)) (hx : x = .receive t ∨ x = .expire t) :
    (s.step x).phase? t = some (s.onceTaken f) := by
  have hr : (s.receive t).phase? t = some (s.onceTaken f) := by
    cases f <;> simp [receive, hp, startDial, onceTaken]
  have he : s.expire t = s.receive t := by simp [expire, hp]
  rcases hx with rfl | rfl
  · exact hr
  · simpa only [step, he] using hr

/-- A connection whose caller is gone before it took it is closed, and with nobody else. -/
theorem abandon_handed (hb : s.Balanced 0) (ho : s.Owned)
    (hp : s.phase? t = some (.handed (.connection c))) :
    (s.step (.abandon t)).phase? t = none ∧ c ∈ (s.step (.abandon t)).dropped ∧
      c ∉ (s.step (.abandon t)).connections := by
  have hd : (s.step (.abandon t)).dropped = s.dropped ++ [c] := by
    simp only [step, abandon, hp]
    unfold freeSlot
    split <;> rfl
  have hn : (s.step (.abandon t)).phase? t = none := by
    simp only [step, abandon, hp]
    unfold freeSlot
    split
    · simp
    · rename_i w rest hl
      have hw := (line_eq_cons hl).1
      have hne : t ≠ w := by
        rintro rfl
        simp at hw
      simp [hne]
  have hm : c ∈ (s.step (.abandon t)).dropped := by simp [hd]
  have hnodup := (owned_moved ho (moved_step hb (.abandon t))).nodup
  exact ⟨hn, hm, fun hc => (List.nodup_append.mp hnodup).2.2 c hc c hm rfl⟩

/-- A pool forgets nobody in line, lets nobody overtake, and neither loses nor doubles what it hands
on. -/
structure Fair (s : State) : Prop where
  no_spare : s.waiters ≠ [] → s.idle = [] ∧ s.admitted = s.config.maxOpen.toNat
  mem_of_queued : ∀ t, s.phase? t = some .queued → t ∈ s.waiters
  in_order : s.waiters.Sublist s.asked.reverse
  not_overtaken : ∀ a t, [t, a].Sublist s.asked → s.phase? a = some .queued → s.Unserved t
  passed_on : ∀ x f w rest, s.freed x = some f → s.liveLine = w :: rest →
    (s.step x).phase? w = some (.handed f) ∧ (s.step x).liveLine = rest ∧
      (s.step x).admitted = s.admitted ∧ (s.step x).idle = s.idle
  kept : ∀ x c, s.freed x = some (.connection c) → s.liveLine = [] → s.hasRoom = true →
    (s.step x).idle = s.idle ++ [⟨c, s.now⟩] ∧ (s.step x).admitted = s.admitted
  taken_back : ∀ x f, s.freed x = some f → s.liveLine = [] → (s.hasRoom = true → f = .slot) →
    (s.step x).idle = s.idle ∧ (s.step x).admitted + 1 = s.admitted
  taken : ∀ t f x, s.phase? t = some (.handed f) → x = .receive t ∨ x = .expire t →
    (s.step x).phase? t = some (s.onceTaken f)
  dropped : ∀ t c, s.phase? t = some (.handed (.connection c)) →
    (s.step (.abandon t)).phase? t = none ∧ c ∈ (s.step (.abandon t)).dropped ∧
      c ∉ (s.step (.abandon t)).connections
  nodup : s.places.Nodup
  conserved : ∀ x, Moved s (s.step x)

/-- What is known of every pool makes it fair. -/
theorem fair_of_invariants (hb : s.Balanced 0) (ho : s.Owned) (h : s.Lined) : s.Fair := by
  have hnodup : s.waiters.Nodup := (List.nodup_reverse.mpr h.asked_nodup).sublist h.in_order
  have hroom {s₁ : State} (hs : Left s s₁) : s₁.hasRoom = s.hasRoom := by
    rw [hasRoom, hasRoom, hs.closed_eq, hs.idle_eq, hs.config_eq]
  refine ⟨hb.full_of_waiters, h.mem_of_queued, h.in_order, h.not_overtaken, ?_, ?_, ?_,
    fun t f x hp hx => phase?_take hp hx, fun t c hp => abandon_handed hb ho hp, ho.nodup,
    moved_step hb⟩
  · intro x f w rest hx hl
    obtain ⟨s₁, hs, hstep⟩ := step_freed hx
    have hp := passOn_of_cons (hs.waiters_eq ▸ hnodup) (hs.liveLine_eq.trans hl) f
    rwa [hs.admitted_eq, hs.idle_eq, ← hstep] at hp
  · intro x c hx hl hr
    obtain ⟨s₁, hs, hstep⟩ := step_freed hx
    have hp := passOn_connection (c := c) (hs.liveLine_eq.trans hl) ((hroom hs).trans hr)
    rwa [hs.admitted_eq, hs.idle_eq, hs.now_eq, ← hstep] at hp
  · intro x f hx hl hf
    obtain ⟨s₁, hs, hstep⟩ := step_freed hx
    obtain ⟨hi, ha, hd⟩ := passOn_back (hs.liveLine_eq.trans hl) (hroom hs ▸ hf)
    -- nothing was overdrawn, so there was an admission to take back
    have hz := (balanced_step hb x).overdrawn_eq
    rw [← hstep] at hi ha hd
    rw [hs.admitted_eq] at ha hd
    refine ⟨hi.trans hs.idle_eq, ?_⟩
    omega

/-- In whatever order callers ask, wait, dial, release and leave: while anyone is on the list of
waiters nothing is idle and no admission is spare, what becomes free goes to the caller that asked
first of those that still wait, nobody is served before one that asked earlier, and what was given
to a caller whose wait is over is taken by it, or closed and passed on if the caller is gone. -/
theorem handoff_fair {config : PoolConfig} {s₀ : State} (h : ofConfig config = .ok s₀)
    (steps : List Step) : (s₀.run steps).Fair := by
  have hb := balanced_ofConfig h
  have ho := owned_run hb (owned_ofConfig h) steps
  have hl := lined_run (lined_ofConfig h) hb steps
  exact fair_of_invariants (balanced_run hb steps) ho hl

/-- A connection passes over a caller that gave up and goes to the next one. -/
theorem handoff_fair_after_timeout :
    (run { config := { maxOpen := 1 } } [.ask 1, .dialed 1 (.ok ()), .ask 2, .ask 3, .expire 2,
      .release 1]).phase? 3 = some (.handed (.connection 1)) ∧
    (run { config := { maxOpen := 1 } } [.ask 1, .dialed 1 (.ok ()), .ask 2, .ask 3, .expire 2,
      .release 1]).Fair :=
  ⟨by decide, @handoff_fair { maxOpen := 1 } _ rfl _⟩

end RemoteCall.Pool.State
