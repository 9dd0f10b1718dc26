import RemoteCall.Proofs.Pool.Steps

/-! The admissions of a pool are those of its idle connections and of its callers, at every moment.

While one step goes on, an admission may be loose: nobody has it, but it is not taken back yet. The
invariant counts the loose ones, so each part of a step has a lemma of its own. -/
namespace RemoteCall.Pool

namespace State
variable {s : State} {t u c n w : Nat} {p : Phase} {rest : List Nat}

/-- All that is to be known of the counter of a pool, with so many admissions loose. -/
structure Balanced (s : State) (loose : Nat) : Prop where
  tickets_nodup : s.tickets.Nodup
  asked_of_mem : ∀ v ∈ s.tickets, v ∈ s.asked
  admitted_eq : s.admitted = s.idle.length + s.permits + loose
  admitted_le : s.admitted ≤ s.config.maxOpen.toNat
  idle_le : s.idle.length ≤ s.config.maxIdle.toNat
  overdrawn_eq : s.overdrawn = 0
  empty_of_closed : s.closed = true → s.idle = [] ∧ s.waiters = []
  full_of_waiters : s.waiters ≠ [] → s.idle = [] ∧ s.admitted = s.config.maxOpen.toNat

/-- A caller that goes away lets go of its admission. -/
theorem balanced_forget (h : s.Balanced n) (hp : s.phase? t = some p) :
    (s.forget t).Balanced (n + p.isAdmitted.toNat) where
  tickets_nodup := nodup_tickets_forget h.tickets_nodup
  asked_of_mem v hv := h.asked_of_mem v (List.mem_filter.mp (tickets_forget ▸ hv)).1
  admitted_eq := by
    have hb : s.admitted = s.idle.length + s.permits + n := h.admitted_eq
    rw [permits_forget h.tickets_nodup hp] at hb
    change s.admitted = s.idle.length + (s.forget t).permits + (n + p.isAdmitted.toNat)
    omega
  admitted_le := h.admitted_le
  idle_le := h.idle_le
  overdrawn_eq := h.overdrawn_eq
  empty_of_closed := h.empty_of_closed
  full_of_waiters := h.full_of_waiters

/-- A caller that is out of the list comes into it with an admission that was loose. -/
theorem balanced_setPhase (h : (s.forget t).Balanced (n + p.isAdmitted.toNat)) (ha : t ∈ s.asked) :
    (s.setPhase t p).Balanced n where
  tickets_nodup := by
    have hn := nodup_tickets_setPhase (t := t) (p := p) h.tickets_nodup
    have he : ((s.forget t).setPhase t p).tickets = (s.setPhase t p).tickets := by
      simp [tickets, setPhase, forget]
    rwa [he] at hn
  asked_of_mem v hv := by
    rcases List.mem_cons.mp hv with rfl | hv
    · exact ha
    · exact h.asked_of_mem v hv
  admitted_eq := by
    have hb : s.admitted = s.idle.length + (s.forget t).permits + (n + p.isAdmitted.toNat) :=
      h.admitted_eq
    change s.admitted = s.idle.length + (s.setPhase t p).permits + n
    rw [permits_setPhase]
    omega
  admitted_le := h.admitted_le
  idle_le := h.idle_le
  overdrawn_eq := h.overdrawn_eq
  empty_of_closed := h.empty_of_closed
  full_of_waiters := h.full_of_waiters

theorem balanced_answer (h : s.Balanced n) (r : Result Nat) : (s.answer t r).Balanced n := by
  obtain ⟨h₁, h₂, h₃, h₄, h₅, h₆, h₇, h₈⟩ := h
  exact ⟨h₁, h₂, h₃, h₄, h₅, h₆, h₇, h₈⟩

theorem balanced_drop (h : s.Balanced n) : (s.drop c).Balanced n := by
  obtain ⟨h₁, h₂, h₃, h₄, h₅, h₆, h₇, h₈⟩ := h
  exact ⟨h₁, h₂, h₃, h₄, h₅, h₆, h₇, h₈⟩

/-- The line may become shorter. -/
theorem balanced_withLine (h : s.Balanced n) {l : List Nat} (hl : s.waiters = [] → l = []) :
    (s.withLine l).Balanced n where
  tickets_nodup := h.tickets_nodup
  asked_of_mem := h.asked_of_mem
  admitted_eq := h.admitted_eq
  admitted_le := h.admitted_le
  idle_le := h.idle_le
  overdrawn_eq := h.overdrawn_eq
  empty_of_closed hc := ⟨(h.empty_of_closed hc).1, hl (h.empty_of_closed hc).2⟩
  full_of_waiters hw := h.full_of_waiters fun he => hw (hl he)

/-- Loose admissions are taken back without a remainder. -/
theorem balanced_takeBack (h : s.Balanced (n + u)) (hw : s.waiters = []) :
    (s.takeBack u).Balanced n where
  tickets_nodup := h.tickets_nodup
  asked_of_mem := h.asked_of_mem
  admitted_eq := by
    have hb : s.admitted = s.idle.length + s.permits + (n + u) := h.admitted_eq
    change s.admitted - u = s.idle.length + s.permits + n
    omega
  admitted_le := Nat.le_trans (Nat.sub_le _ _) h.admitted_le
  idle_le := h.idle_le
  overdrawn_eq := by
    have hb : s.admitted = s.idle.length + s.permits + (n + u) := h.admitted_eq
    have ho : s.overdrawn = 0 := h.overdrawn_eq
    change s.overdrawn + (u - s.admitted) = 0
    omega
  empty_of_closed := h.empty_of_closed
  full_of_waiters hne := absurd hw hne

/-- The first in line takes over a loose admission. -/
theorem balanced_hand (h : s.Balanced (n + 1)) (hl : s.line = w :: rest) (x : Handoff) :
    ((s.withLine rest).setPhase w (.handed x)).Balanced n := by
  obtain ⟨hq, gone, hg, -⟩ := line_eq_cons hl
  have hw : (s.withLine rest).Balanced (n + 1) :=
    balanced_withLine h fun he => by simp [hg] at he
  -- in line it had no admission, so what is loose becomes its own
  have hf := balanced_forget (t := w) hw hq
  have ha : w ∈ s.asked := h.asked_of_mem w (mem_tickets.mpr (by simp [hq]))
  exact balanced_setPhase (p := .handed x) hf ha

/-- A free admission finds a caller or is taken back, so there is one less of them. -/
theorem balanced_freeSlot (h : s.Balanced (n + 1)) : s.freeSlot.Balanced n := by
  unfold freeSlot
  split
  · exact balanced_takeBack (balanced_withLine h fun _ => rfl) rfl
  · rename_i w rest hl
    exact balanced_hand h hl .slot

/-- A connection that is given back brings its admission along. -/
theorem balanced_giveBack (h : s.Balanced (n + 1)) : (s.giveBack c).Balanced n := by
  unfold giveBack
  split
  · rename_i w rest hl
    exact balanced_hand h hl (.connection c)
  · have hw : (s.withLine []).Balanced (n + 1) := balanced_withLine h fun _ => rfl
    dsimp only
    split
    · rename_i hroom
      rw [Bool.and_eq_true, Bool.not_eq_true', decide_eq_true_eq] at hroom
      obtain ⟨hopen, hlt⟩ := hroom
      refine ⟨h.tickets_nodup, h.asked_of_mem, ?_, h.admitted_le, ?_, h.overdrawn_eq, ?_,
        fun hne => absurd rfl hne⟩
      · have hb : s.admitted = s.idle.length + s.permits + (n + 1) := h.admitted_eq
        change s.admitted = (s.idle ++ ([⟨c, s.now⟩] : List Idle)).length + s.permits + n
        simp only [List.length_append, List.length_cons, List.length_nil]
        omega
      · change (s.idle ++ ([⟨c, s.now⟩] : List Idle)).length ≤ s.config.maxIdle.toNat
        simp only [List.length_append, List.length_cons, List.length_nil]
        exact hlt
      · intro hc
        exact absurd (hopen.symm.trans hc) Bool.false_ne_true
    · exact balanced_drop (balanced_takeBack hw rfl)

/-- A caller changes its phase and keeps what it has of an admission. -/
theorem balanced_replace {q : Phase} (h : s.Balanced n) (hp : s.phase? t = some p)
    (hq : q.isAdmitted = p.isAdmitted) : (s.setPhase t q).Balanced n := by
  have hf := balanced_forget h hp
  rw [← hq] at hf
  exact balanced_setPhase hf (h.asked_of_mem t (mem_tickets.mpr (by simp [hp])))

/-- A new caller comes into the list with an admission that was loose. -/
theorem balanced_enter (h : s.Balanced (n + p.isAdmitted.toNat)) (hp : s.phase? t = none)
    (ha : t ∈ s.asked) : (s.setPhase t p).Balanced n :=
  balanced_setPhase ((forget_of_none hp).symm ▸ h) ha

theorem balanced_withNext (h : s.Balanced n) (c : Nat) : { s with next := c }.Balanced n := by
  obtain ⟨h₁, h₂, h₃, h₄, h₅, h₆, h₇, h₈⟩ := h
  exact ⟨h₁, h₂, h₃, h₄, h₅, h₆, h₇, h₈⟩

theorem balanced_withAsked (h : s.Balanced n) (t : Nat) :
    { s with asked := t :: s.asked }.Balanced n := by
  obtain ⟨h₁, h₂, h₃, h₄, h₅, h₆, h₇, h₈⟩ := h
  exact ⟨h₁, fun v hv => List.mem_cons_of_mem t (h₂ v hv), h₃, h₄, h₅, h₆, h₇, h₈⟩

/-- Either nobody is in line or there is nothing idle, so sweeping takes back admissions only while
nobody waits for them. -/
theorem Balanced.idle_or_waiters (h : s.Balanced n) : s.idle = [] ∨ s.waiters = [] := by
  by_cases hw : s.waiters = []
  · exact .inr hw
  · exact .inl (h.full_of_waiters hw).1

/-- Connections that have been idle for too long leave their admissions behind. -/
theorem balanced_swept (h : s.Balanced n) : s.swept.Balanced n := by
  -- if somebody waits, nothing is idle and nothing is swept
  rcases h.idle_or_waiters with hi | hw
  · have he : s.swept = s := by
      rw [swept, hi, sweep_nil, withIdle, ← hi]
    rwa [he]
  have hl : (s.idle.takeWhile s.isExpired).length + (s.idle.dropWhile s.isExpired).length =
      s.idle.length := by
    rw [← List.length_append, List.takeWhile_append_dropWhile]
  have hb : s.admitted = s.idle.length + s.permits + n := h.admitted_eq
  have hm : s.admitted ≤ s.config.maxOpen.toNat := h.admitted_le
  have hx : s.idle.length ≤ s.config.maxIdle.toNat := h.idle_le
  have ho : s.overdrawn = 0 := h.overdrawn_eq
  refine ⟨h.tickets_nodup, h.asked_of_mem, ?_, ?_, ?_, ?_, ?_, fun hne => absurd hw hne⟩
  · change s.admitted - (s.idle.takeWhile s.isExpired).length =
      (s.idle.dropWhile s.isExpired).length + s.permits + n
    omega
  · change s.admitted - (s.idle.takeWhile s.isExpired).length ≤ s.config.maxOpen.toNat
    omega
  · change (s.idle.dropWhile s.isExpired).length ≤ s.config.maxIdle.toNat
    omega
  · change s.overdrawn + ((s.idle.takeWhile s.isExpired).length - s.admitted) = 0
    omega
  · intro hc
    have he := (h.empty_of_closed hc).1
    exact ⟨by simp [swept, sweep, he], hw⟩

/-- A caller that asks is accounted for, however it is answered. -/
theorem balanced_admitting {s' : State} (h : s.Balanced 0) (hp : s.phase? t = none)
    (ha : t ∈ s.asked) (hout : Admitting s t s') : s'.Balanced 0 := by
  have hs := balanced_swept h
  have hsp : s.swept.phase? t = none := hp
  cases hout with
  | closed hc => exact balanced_answer ((forget_of_none hp).symm ▸ h) _
  | busy hc hi hm hf => exact balanced_answer ((forget_of_none hsp).symm ▸ hs) _
  | reused hc i rest hi =>
    have hw : s.swept.waiters = [] := by
      rcases hs.idle_or_waiters with he | hw
      · exact absurd (hi.symm.trans he) (List.cons_ne_nil _ _)
      · exact hw
    -- the connection leaves the idle ones and is not yet the caller's
    have hb : (s.swept.withIdle rest).Balanced 1 := by
      have ha := hs.admitted_eq
      have hx := hs.idle_le
      rw [hi, List.length_cons] at ha hx
      refine ⟨hs.tickets_nodup, hs.asked_of_mem, ?_, hs.admitted_le, ?_, hs.overdrawn_eq, ?_,
        fun hne => absurd hw hne⟩
      · change s.swept.admitted = rest.length + s.swept.permits + 1
        omega
      · change rest.length ≤ s.swept.config.maxIdle.toNat
        omega
      · intro hcl
        exact absurd (hc.symm.trans hcl) Bool.false_ne_true
    exact balanced_answer (balanced_enter (p := .holding i.connection) hb hsp ha) _
  | dials hc hi hm =>
    -- the new admission is loose until the caller is on the list; it leaves nobody waiting
    have hb : ({ s.swept with admitted := s.swept.admitted + 1 } : State).Balanced 1 := by
      have hq := hs.admitted_eq
      refine ⟨hs.tickets_nodup, hs.asked_of_mem, ?_, hm, hs.idle_le, hs.overdrawn_eq,
        hs.empty_of_closed, ?_⟩
      · change s.swept.admitted + 1 = s.swept.idle.length + s.swept.permits + 1
        omega
      · intro hne
        have he := (hs.full_of_waiters hne).2
        exact absurd hm (by rw [he]; exact Nat.lt_irrefl _)
    exact balanced_enter (p := .dialing s.swept.next) (balanced_withNext hb _) hsp ha
  | queues hc hi hm hf =>
    have hb : (s.swept.withLine (s.waiters ++ [t])).Balanced 0 := by
      refine ⟨hs.tickets_nodup, hs.asked_of_mem, hs.admitted_eq, hs.admitted_le, hs.idle_le,
        hs.overdrawn_eq, ?_, fun _ => ⟨hi, Nat.le_antisymm hs.admitted_le hm⟩⟩
      intro hcl
      exact absurd (hc.symm.trans hcl) Bool.false_ne_true
    exact balanced_enter (p := .queued) hb hsp ha

theorem balanced_close (h : s.Balanced 0) : s.close.Balanced 0 where
  tickets_nodup := by
    change s.refuseAll.tickets.Nodup
    rw [tickets_refuseAll]
    exact h.tickets_nodup
  asked_of_mem v hv := by
    change v ∈ s.refuseAll.tickets at hv
    rw [tickets_refuseAll] at hv
    exact h.asked_of_mem v hv
  admitted_eq := by
    have hb := h.admitted_eq
    change s.admitted - s.idle.length = 0 + s.refuseAll.permits + 0
    rw [permits_refuseAll]
    omega
  admitted_le := Nat.le_trans (Nat.sub_le _ _) h.admitted_le
  idle_le := Nat.zero_le _
  overdrawn_eq := by
    have hb := h.admitted_eq
    have ho := h.overdrawn_eq
    change s.overdrawn + (s.idle.length - s.admitted) = 0
    omega
  empty_of_closed _ := ⟨rfl, rfl⟩
  full_of_waiters hne := absurd rfl hne

theorem Balanced.stepping (h : s.Balanced n) (x : Step) : Stepping s x (s.step x) :=
  State.stepping h.idle_or_waiters h.asked_of_mem x

/-- Every step leaves the admissions accounted for. -/
theorem balanced_step (h : s.Balanced 0) (x : Step) : (s.step x).Balanced 0 := by
  have hx := h.stepping x
  generalize s.step x = s' at hx
  cases hx with
  | rests => exact h
  | asks t s' ht hp ha => exact balanced_admitting (balanced_withAsked h t) hp List.mem_cons_self ha
  | takes x t c hx hp => exact balanced_answer (balanced_replace (q := .holding c) h hp rfl) _
  | dials x t hx hp => exact balanced_replace (q := .dialing s.next) (balanced_withNext h _) hp rfl
  | fails x t p e hx hp hn =>
    have hf := balanced_forget h hp
    rcases hn with rfl | rfl <;> exact balanced_answer hf _
  | opens t c hp => exact balanced_answer (balanced_replace (q := .holding c) h hp rfl) _
  | opensNot t c e hp => exact balanced_freeSlot (balanced_answer (balanced_forget h hp) _)
  | releases t c hp => exact balanced_giveBack (balanced_forget h hp)
  | drops t c p hp hc =>
    have hf := balanced_forget h hp
    rcases hc with rfl | rfl <;> exact balanced_freeSlot (balanced_drop hf)
  | frees t p hp hn =>
    have hf := balanced_forget h hp
    rcases hn with rfl | ⟨c, rfl⟩ <;> exact balanced_freeSlot hf
  | leaves t p hp hn =>
    have hf := balanced_forget h hp
    rcases hn with rfl | rfl <;> exact hf
  | closes => exact balanced_close h
  | passes span =>
    obtain ⟨h₁, h₂, h₃, h₄, h₅, h₆, h₇, h₈⟩ := h
    exact ⟨h₁, h₂, h₃, h₄, h₅, h₆, h₇, h₈⟩

theorem balanced_run (h : s.Balanced 0) (steps : List Step) : (s.run steps).Balanced 0 := by
  induction steps generalizing s with
  | nil => exact h
  | cons x rest ih => exact ih (balanced_step h x)

theorem balanced_ofConfig {config : PoolConfig} (h : ofConfig config = .ok s) : s.Balanced 0 := by
  unfold ofConfig at h
  split at h
  · cases h
  · cases h
    exact ⟨List.nodup_nil, fun v hv => absurd hv List.not_mem_nil, rfl, Nat.zero_le _,
      Nat.zero_le _, rfl, fun _ => ⟨rfl, rfl⟩, fun hne => absurd rfl hne⟩

@[simp] theorem next_freeSlot : s.freeSlot.next = s.next := by
  unfold freeSlot
  split <;> rfl

@[simp] theorem next_giveBack : (s.giveBack c).next = s.next := by
  unfold giveBack
  split
  · rfl
  · dsimp only
    split <;> rfl

/-- What no step takes back: the configuration, that the pool is closed, and which connections are.
-/
structure Frame (s s' : State) : Prop where
  config_eq : s'.config = s.config
  closed : s.closed = true → s'.closed = true
  dropped : s.dropped ⊆ s'.dropped

theorem frame_of_eq {s' : State} (hconfig : s'.config = s.config) (hclosed : s'.closed = s.closed)
    (hdropped : s'.dropped = s.dropped) : Frame s s' :=
  ⟨hconfig, fun hc => hclosed.trans hc, hdropped ▸ List.Subset.refl _⟩

theorem Frame.trans {s₁ s₂ : State} (h₁ : Frame s s₁) (h₂ : Frame s₁ s₂) : Frame s s₂ :=
  ⟨h₂.config_eq.trans h₁.config_eq, fun hc => h₂.closed (h₁.closed hc), fun _ hc =>
    h₂.dropped (h₁.dropped hc)⟩

theorem frame_drop : Frame s (s.drop c) := ⟨rfl, id, List.subset_append_left _ _⟩

theorem frame_freeSlot : Frame s s.freeSlot := by
  unfold freeSlot
  split <;> exact frame_of_eq rfl rfl rfl

theorem frame_giveBack : Frame s (s.giveBack c) := by
  unfold giveBack
  split
  · exact frame_of_eq rfl rfl rfl
  · dsimp only
    split
    · exact frame_of_eq rfl rfl rfl
    · exact ⟨rfl, id, List.subset_append_left _ _⟩

/-- No step takes back what was closed. -/
theorem frame_step (h : s.Balanced 0) (x : Step) : Frame s (s.step x) := by
  have hx := h.stepping x
  generalize s.step x = s' at hx
  have hforget (t : Nat) : Frame s (s.forget t) := frame_of_eq rfl rfl rfl
  cases hx with
  | rests => exact frame_of_eq rfl rfl rfl
  | asks t s' ht hp ha =>
    have hswept : Frame s ({ s with asked := t :: s.asked } : State).swept :=
      ⟨rfl, id, List.subset_append_left _ _⟩
    cases ha with
    | closed hc => exact frame_of_eq rfl rfl rfl
    | reused hc i rest hi => exact hswept.trans (frame_of_eq rfl rfl rfl)
    | dials hc hi hm => exact hswept.trans (frame_of_eq rfl rfl rfl)
    | busy hc hi hm hf => exact hswept.trans (frame_of_eq rfl rfl rfl)
    | queues hc hi hm hf => exact hswept.trans (frame_of_eq rfl rfl rfl)
  | takes x t c hx hp => exact frame_of_eq rfl rfl rfl
  | dials x t hx hp => exact frame_of_eq rfl rfl rfl
  | fails x t p e hx hp hn => exact frame_of_eq rfl rfl rfl
  | opens t c hp => exact frame_of_eq rfl rfl rfl
  | opensNot t c e hp =>
    have hfail : Frame s (s.fail t e) := frame_of_eq rfl rfl rfl
    exact hfail.trans frame_freeSlot
  | releases t c hp => exact (hforget t).trans frame_giveBack
  | drops t c p hp hc => exact ((hforget t).trans frame_drop).trans frame_freeSlot
  | frees t p hp hn => exact (hforget t).trans frame_freeSlot
  | leaves t p hp hn => exact hforget t
  | closes => exact ⟨rfl, fun _ => rfl, List.subset_append_left _ _⟩
  | passes span => exact frame_of_eq rfl rfl rfl

theorem frame_run (h : s.Balanced 0) (steps : List Step) : Frame s (s.run steps) := by
  induction steps generalizing s with
  | nil => exact frame_of_eq rfl rfl rfl
  | cons x rest ih => exact (frame_step h x).trans (ih (balanced_step h x))

def connections (s : State) : List Nat :=
  s.idle.map (·.connection) ++ s.callers.flatMap (·.phase.connections)

/-- Every connection is idle, or somebody holds its admission. -/
theorem length_connections_le : s.connections.length ≤ s.idle.length + s.permits := by
  -- each caller has one connection at most, and only with an admission
  have hl (l : List Caller) :
      (l.flatMap (·.phase.connections)).length ≤ l.countP (·.phase.isAdmitted) := by
    induction l with
    | nil => exact Nat.le_refl _
    | cons a l ih =>
      have ha := a.phase.length_connections_le
      rw [List.flatMap_cons, List.length_append, List.countP_cons]
      cases hp : a.phase.isAdmitted <;>
        simp only [hp, Bool.toNat_true, Bool.toNat_false] at ha ⊢ <;>
        simp only [Bool.false_eq_true, ↓reduceIte] <;> omega
  have hc := hl s.callers
  simp only [connections, List.length_append, List.length_map, permits]
  omega

/-- In whatever order callers ask, wait, dial, release and leave, and whenever the pool is closed:
its counter is the number of idle connections and of admissions that callers hold, it stays within
its bound and is never taken below zero, and no more connections exist than it allows. A closed pool
keeps nothing idle and nobody waiting. -/
theorem admissions_accounted {config : PoolConfig} {s₀ : State} (h : ofConfig config = .ok s₀)
    (steps : List Step) :
    (s₀.run steps).admitted = (s₀.run steps).idle.length + (s₀.run steps).permits ∧
    (s₀.run steps).admitted ≤ config.maxOpen.toNat ∧
    (s₀.run steps).idle.length ≤ config.maxIdle.toNat ∧
    (s₀.run steps).overdrawn = 0 ∧
    (s₀.run steps).connections.length ≤ config.maxOpen.toNat ∧
    ((s₀.run steps).callers = [] → (s₀.run steps).admitted = (s₀.run steps).idle.length) ∧
    ∀ more, (s₀.run (steps ++ .close :: more)).idle = [] ∧
      (s₀.run (steps ++ .close :: more)).waiters = [] := by
  have h₀ := balanced_ofConfig h
  have hb := balanced_run h₀ steps
  have hconfig : (s₀.run steps).config = config := by
    rw [(frame_run h₀ steps).config_eq]
    unfold ofConfig at h
    split at h
    · cases h
    · cases h
      rfl
  have heq := hb.admitted_eq
  have hle := hb.admitted_le
  rw [hconfig] at hle
  have hidle := hb.idle_le
  rw [hconfig] at hidle
  have hlen := length_connections_le (s := s₀.run steps)
  refine ⟨heq, hle, hidle, hb.overdrawn_eq, by omega, ?_, ?_⟩
  · intro hc
    have hp : (s₀.run steps).permits = 0 := by rw [permits, hc, List.countP_nil]
    omega
  · intro more
    have hrun : s₀.run (steps ++ .close :: more) = ((s₀.run steps).step .close).run more := by
      simp only [run, List.foldl_append, List.foldl_cons]
    -- a closed pool stays closed, and then the invariant leaves nothing idle
    have hclosed := balanced_step hb .close
    rw [hrun]
    exact (balanced_run hclosed more).empty_of_closed ((frame_run hclosed more).closed rfl)

/-- An admission stays in use while a connection is on its way from one caller to the next. -/
theorem admissions_accounted_in_flight :
    (run { config := { maxOpen := 1 } } [.ask 1, .dialed 1 (.ok ()), .ask 2, .release 1]).phase? 2 =
      some (.handed (.connection 1)) ∧
    (run { config := { maxOpen := 1 } } [.ask 1, .dialed 1 (.ok ()), .ask 2, .release 1]).admitted =
      (run { config := { maxOpen := 1 } }
        [.ask 1, .dialed 1 (.ok ()), .ask 2, .release 1]).idle.length +
      (run { config := { maxOpen := 1 } }
        [.ask 1, .dialed 1 (.ok ()), .ask 2, .release 1]).permits :=
  ⟨by decide, (@admissions_accounted { maxOpen := 1 } _ rfl _).1⟩

end State
end RemoteCall.Pool
