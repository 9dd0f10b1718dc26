import RemoteCall.Proofs.Pool.Holders
import RemoteCall.Proofs.Pool.Idle
import Mathlib.Data.List.Induction

/-! Where each connection is, at every moment of the life of a pool.

A connection that was opened is idle, on its way to a caller, with a caller, or closed, and what a
step does to it is told by where it is. So it has one owner, it is closed for good, and it is idle
only between the step of the caller that gave it back and the step of the caller that takes it. -/
namespace RemoteCall.Pool

inductive Place where
  | idle
  /-- On its way to a caller, which was given it and has not taken it. -/
  | handed (ticket : Nat)
  | held (ticket : Nat)
  | closed
deriving DecidableEq, Repr

/-- Where a connection is if a caller has it. A connection that is being opened is nowhere yet. -/
def Caller.place? (a : Caller) (c : Nat) : Option Place :=
  match a.phase with
  | .handed (.connection d) => if d = c then some (.handed a.ticket) else none
  | .holding d => if d = c then some (.held a.ticket) else none
  | _ => none

namespace State
variable {s s' s₀ : State} {t u c w : Nat} {p : Phase} {q : Place} {x : Step} {steps : List Step}

/-- All the places that have a connection, each as often as it has it. -/
def whereabouts (s : State) (c : Nat) : List Place :=
  ((s.idle.filter fun i => i.connection == c).map fun _ => .idle) ++
    s.callers.filterMap (fun a => a.place? c) ++
    ((s.dropped.filter fun d => d == c).map fun _ => .closed)

def At (s : State) (c : Nat) : Place → Prop
  | .idle => ∃ i ∈ s.idle, i.connection = c
  | .handed t => s.phase? t = some (.handed (.connection c))
  | .held t => s.phase? t = some (.holding c)
  | .closed => c ∈ s.dropped

/-- A caller is known by its ticket. -/
theorem mem_callers_iff (h : s.tickets.Nodup) : (⟨t, p⟩ : Caller) ∈ s.callers ↔
    s.phase? t = some p := by
  constructor
  · intro ha
    have hne : s.phase? t ≠ none := mem_tickets.mp (List.mem_map.mpr ⟨_, ha, rfl⟩)
    obtain ⟨q, hq⟩ := Option.ne_none_iff_exists'.mp hne
    -- the caller that is found has the ticket too, so it is this one
    obtain ⟨b, hb, rfl⟩ := Option.map_eq_some_iff.mp hq
    have hbt : b.ticket = t := by simpa using List.find?_some hb
    have hab : b = ⟨t, p⟩ := List.inj_on_of_nodup_map h (List.mem_of_find?_eq_some hb) ha hbt
    rw [hq, hab]
  · intro hp
    obtain ⟨b, hb, rfl⟩ := Option.map_eq_some_iff.mp hp
    have hbt : b.ticket = t := by simpa using List.find?_some hb
    have hmem := List.mem_of_find?_eq_some hb
    rwa [← hbt]

theorem place?_eq_some {a : Caller} : a.place? c = some q ↔
    (a.phase = .handed (.connection c) ∧ q = .handed a.ticket) ∨
    (a.phase = .holding c ∧ q = .held a.ticket) := by
  obtain ⟨t, p⟩ := a
  rcases p with _ | (d | _) | _ | d | d <;> simp only [Caller.place?]
  · simp
  · by_cases hd : d = c
    · simp [hd, eq_comm]
    · simp [hd]
  · simp
  · simp
  · simp
  · by_cases hd : d = c
    · simp [hd, eq_comm]
    · simp [hd]

/-- The whereabouts of a connection are the places where it is. -/
theorem mem_whereabouts (h : s.tickets.Nodup) : q ∈ s.whereabouts c ↔ s.At c q := by
  have hcaller : q ∈ s.callers.filterMap (fun a => a.place? c) ↔
      ∃ t, (s.phase? t = some (.handed (.connection c)) ∧ q = .handed t) ∨
        (s.phase? t = some (.holding c) ∧ q = .held t) := by
    rw [List.mem_filterMap]
    constructor
    · rintro ⟨⟨t, p⟩, ha, hq⟩
      rw [mem_callers_iff h] at ha
      refine ⟨t, ?_⟩
      rcases place?_eq_some.mp hq with ⟨rfl, rfl⟩ | ⟨rfl, rfl⟩
      · exact .inl ⟨ha, rfl⟩
      · exact .inr ⟨ha, rfl⟩
    · rintro ⟨t, ⟨ht, rfl⟩ | ⟨ht, rfl⟩⟩
      · exact ⟨_, (mem_callers_iff h).mpr ht, place?_eq_some.mpr (.inl ⟨rfl, rfl⟩)⟩
      · exact ⟨_, (mem_callers_iff h).mpr ht, place?_eq_some.mpr (.inr ⟨rfl, rfl⟩)⟩
  rw [whereabouts, List.mem_append, List.mem_append, hcaller]
  cases q <;> simp [At]

/-- Each place that has a connection is one of the places of connections. -/
theorem length_whereabouts_le : (s.whereabouts c).length ≤ s.places.count c := by
  have hcallers (l : List Caller) :
      (l.filterMap fun a => a.place? c).length ≤ (l.flatMap (·.phase.connections)).count c := by
    induction l with
    | nil => exact Nat.le_refl _
    | cons a l ih =>
      rw [List.flatMap_cons, List.count_append]
      cases ha : a.place? c with
      | none =>
        rw [List.filterMap_cons_none (by exact ha)]
        omega
      | some q =>
        have hone : a.phase.connections.count c = 1 := by
          rcases place?_eq_some.mp ha with ⟨hp, -⟩ | ⟨hp, -⟩ <;> simp [hp, Phase.connections]
        rw [List.filterMap_cons_some (by exact ha), List.length_cons]
        omega
  have hidle : (s.idle.filter fun i => i.connection == c).length =
      (s.idle.map (·.connection)).count c := by
    rw [List.count_eq_countP, List.countP_map, List.countP_eq_length_filter]
    rfl
  have hdropped : (s.dropped.filter fun d => d == c).length = s.dropped.count c := by
    rw [List.count_eq_countP, List.countP_eq_length_filter]
  have hs := hcallers s.callers
  simp only [whereabouts, places, connections, List.length_append,
    List.length_map, List.count_append]
  omega

theorem Owned.length_whereabouts_le (ho : s.Owned) : (s.whereabouts c).length ≤ 1 :=
  Nat.le_trans State.length_whereabouts_le (List.nodup_iff_count_le_one.mp ho.nodup c)

/-- No connection is in two places. -/
theorem Owned.whereabouts_eq_iff (ho : s.Owned) (h : s.tickets.Nodup) :
    s.whereabouts c = [q] ↔ s.At c q := by
  rw [← mem_whereabouts h]
  constructor
  · intro hq
    simp [hq]
  · intro hq
    have hle : (s.whereabouts c).length ≤ 1 := ho.length_whereabouts_le
    match hl : s.whereabouts c with
    | [] => simp [hl] at hq
    | [r] =>
      rw [hl, List.mem_singleton] at hq
      rw [hq]
    | _ :: _ :: _ =>
      rw [hl] at hle
      simp at hle

/-- Where a connection goes that its caller gives back: to the first in line, else among the idle
ones if it is worth keeping. -/
def givenBack (s : State) : Place :=
  match s.liveLine with
  | w :: _ => .handed w
  | [] => if s.hasRoom then .idle else .closed

/-- Where a connection is after a step, by where it is before. -/
def placeAfter (s : State) (x : Step) (c : Nat) : Place → Place
  | .idle =>
    match x with
    | .ask t =>
      if t ∈ s.asked then .idle
      else if c ∈ (s.idle.takeWhile s.isExpired).map (·.connection) then .closed
      else if s.reused? = some c then .held t
      else .idle
    | .close => .closed
    | _ => .idle
  | .handed t =>
    match x with
    | .receive u | .expire u => if u = t then .held t else .handed t
    | .abandon u => if u = t then .closed else .handed t
    | _ => .handed t
  | .held t =>
    match x with
    | .release u => if u = t then s.givenBack else .held t
    | .abandon u => if u = t then .closed else .held t
    | _ => .held t
  | .closed => .closed

/-- What a caller was handed is kept for it until it does something itself. -/
theorem phase?_step_of_handed {f : Handoff} (h : s.Balanced 0) (hp : s.phase? t = some (.handed f))
    (hr : x ≠ .receive t) (he : x ≠ .expire t) (ha : x ≠ .abandon t) :
    (s.step x).phase? t = some (.handed f) := by
  refine phase?_step_of_still h hp (by simp) ?_
  -- the caller has asked, and it neither dials nor holds anything
  intro hx
  cases x with
  | ask u =>
    obtain rfl : u = t := Option.some.inj hx
    exact if_pos (h.asked_of_mem u (mem_tickets.mpr (by simp [hp])))
  | receive u => exact absurd (congrArg Step.receive (Option.some.inj hx)) hr
  | expire u => exact absurd (congrArg Step.expire (Option.some.inj hx)) he
  | dialed u r =>
    obtain rfl : u = t := Option.some.inj hx
    simp only [step, dialed, hp]
  | release u =>
    obtain rfl : u = t := Option.some.inj hx
    simp only [step, release, hp]
  | abandon u => exact absurd (congrArg Step.abandon (Option.some.inj hx)) ha
  | close => cases hx
  | pass span => cases hx

/-- What a caller was given stays on its way until the caller takes it or leaves. -/
theorem at_step_handed (h : s.Balanced 0) (ho : s.Owned) (hp : s.At c (.handed t)) (x : Step) :
    (s.step x).At c (s.placeAfter x c (.handed t)) := by
  have hp : s.phase? t = some (.handed (.connection c)) := hp
  by_cases hr : x = .receive t
  · have hplace : s.placeAfter x c (.handed t) = .held t := hr ▸ if_pos rfl
    rw [hplace]
    exact phase?_take hp (.inl hr)
  by_cases he : x = .expire t
  · have hplace : s.placeAfter x c (.handed t) = .held t := he ▸ if_pos rfl
    rw [hplace]
    exact phase?_take hp (.inr he)
  by_cases ha : x = .abandon t
  · have hplace : s.placeAfter x c (.handed t) = .closed := ha ▸ if_pos rfl
    rw [hplace, ha]
    exact (abandon_handed h ho hp).2.1
  have hplace : s.placeAfter x c (.handed t) = .handed t := by
    cases x with
    | receive u => exact if_neg fun hut : u = t => hr (hut ▸ rfl)
    | expire u => exact if_neg fun hut : u = t => he (hut ▸ rfl)
    | abandon u => exact if_neg fun hut : u = t => ha (hut ▸ rfl)
    | ask | dialed | release | close | pass => rfl
  rw [hplace]
  exact phase?_step_of_handed h hp hr he ha

/-- What a caller has stays with it until it gives it back or leaves. -/
theorem at_step_held (h : s.Balanced 0) (ho : s.Owned) (hn : s.waiters.Nodup)
    (hp : s.At c (.held t)) (x : Step) : (s.step x).At c (s.placeAfter x c (.held t)) := by
  have hp : s.phase? t = some (.holding c) := hp
  by_cases hr : x = .release t
  · have hplace : s.placeAfter x c (.held t) = s.givenBack := hr ▸ if_pos rfl
    rw [hplace, hr, step_release hp, givenBack]
    cases hl : s.liveLine with
    | cons w rest => exact (giveBack_of_liveLine_cons hn hp hl).1
    | nil =>
      have hgive := giveBack_of_liveLine_nil hp hl
      dsimp only
      split
      · rename_i hroom
        rw [if_pos hroom] at hgive
        exact ⟨⟨c, s.now⟩, by simp [hgive], rfl⟩
      · rename_i hroom
        rw [if_neg hroom] at hgive
        exact hgive.2
  by_cases ha : x = .abandon t
  · have hplace : s.placeAfter x c (.held t) = .closed := ha ▸ if_pos rfl
    rw [hplace, ha]
    exact (abandon_holding h ho hp).1
  have hplace : s.placeAfter x c (.held t) = .held t := by
    cases x with
    | release u => exact if_neg fun hut : u = t => hr (hut ▸ rfl)
    | abandon u => exact if_neg fun hut : u = t => ha (hut ▸ rfl)
    | ask | receive | expire | dialed | close | pass => rfl
  rw [hplace]
  exact phase?_step_of_holding h hp hr ha

/-- What is neither old nor the first of the others stays where it is when a caller asks. -/
theorem mem_tail_of_mem {i : Idle} (hi : i ∈ s.idle)
    (hold : i.connection ∉ (s.idle.takeWhile s.isExpired).map (·.connection))
    (hreused : s.reused? ≠ some i.connection) : i ∈ (s.idle.dropWhile s.isExpired).tail := by
  have hfresh : i ∈ s.idle.dropWhile s.isExpired := by
    rw [← List.takeWhile_append_dropWhile (p := s.isExpired) (l := s.idle), List.mem_append] at hi
    exact hi.resolve_left fun hm => hold (List.mem_map_of_mem hm)
  obtain ⟨j, rest, hj⟩ := List.exists_cons_of_ne_nil (List.ne_nil_of_mem hfresh)
  have hij : i ≠ j := by
    rintro rfl
    exact hreused (by rw [reused?, hj, List.head?_cons, Option.map_some])
  rw [hj] at hfresh ⊢
  exact (List.mem_cons.mp hfresh).resolve_left hij

/-- What is idle stays idle until a caller asks or the pool is closed. -/
theorem at_step_idle (h : s.Balanced 0) (hn : s.waiters.Nodup) (hp : s.At c .idle) (x : Step) :
    (s.step x).At c (s.placeAfter x c .idle) := by
  obtain ⟨i, hi, rfl⟩ := hp
  have hidle := idle_step h hn x
  cases x with
  | ask t =>
    simp only [placeAfter]
    simp only [idleAfter] at hidle
    by_cases ht : t ∈ s.asked
    · rw [if_pos ht] at hidle ⊢
      exact ⟨i, hidle ▸ hi, rfl⟩
    rw [if_neg ht] at hidle ⊢
    by_cases hold : i.connection ∈ (s.idle.takeWhile s.isExpired).map (·.connection)
    · rw [if_pos hold]
      exact dropped_step_ask h ht hold
    rw [if_neg hold]
    by_cases hreused : s.reused? = some i.connection
    · rw [if_pos hreused]
      exact phase?_step_ask h ht hreused
    rw [if_neg hreused]
    exact ⟨i, hidle ▸ mem_tail_of_mem hi hold hreused, rfl⟩
  | close => exact List.mem_append_right _ (List.mem_map_of_mem hi)
  | release t =>
    refine ⟨i, ?_, rfl⟩
    rw [hidle]
    simp only [idleAfter]
    split
    · split
      · exact List.mem_append_left _ hi
      · exact hi
    · exact hi
  | receive | expire | dialed | abandon | pass => exact ⟨i, hidle ▸ hi, rfl⟩

/-- All that every step keeps. -/
structure Sound (s : State) : Prop where
  balanced : s.Balanced 0
  owned : s.Owned
  lined : s.Lined
  ordered : s.Ordered

theorem Lined.nodup_waiters (h : s.Lined) : s.waiters.Nodup :=
  (List.nodup_reverse.mpr h.asked_nodup).sublist h.in_order

theorem sound_step (h : s.Sound) (x : Step) : (s.step x).Sound where
  balanced := balanced_step h.balanced x
  owned := owned_moved h.owned (moved_step h.balanced x)
  lined := lined_step h.lined h.balanced x
  ordered := ordered_step h.balanced h.lined.nodup_waiters h.ordered x

theorem sound_run (h : s.Sound) (steps : List Step) : (s.run steps).Sound := by
  induction steps generalizing s with
  | nil => exact h
  | cons x rest ih => exact ih (sound_step h x)

theorem sound_ofConfig {config : PoolConfig} (h : ofConfig config = .ok s) : s.Sound := by
  refine ⟨balanced_ofConfig h, owned_ofConfig h, lined_ofConfig h, ?_⟩
  unfold ofConfig at h
  split at h
  · cases h
  · cases h
    exact ⟨List.Pairwise.nil, fun i hi => absurd hi List.not_mem_nil⟩

/-- After a step a connection is where it was moved to. -/
theorem Sound.at_step (h : s.Sound) (hq : s.At c q) (x : Step) :
    (s.step x).At c (s.placeAfter x c q) := by
  cases q with
  | idle => exact at_step_idle h.balanced h.lined.nodup_waiters hq x
  | handed t => exact at_step_handed h.balanced h.owned hq x
  | held t => exact at_step_held h.balanced h.owned h.lined.nodup_waiters hq x
  | closed => exact (frame_step h.balanced x).dropped hq

theorem Sound.whereabouts_eq_iff (h : s.Sound) : s.whereabouts c = [q] ↔ s.At c q :=
  h.owned.whereabouts_eq_iff h.balanced.tickets_nodup

/-- A step takes a connection from one place to one place. -/
theorem Sound.whereabouts_step (h : s.Sound) (hq : s.whereabouts c = [q]) (x : Step) :
    (s.step x).whereabouts c = [s.placeAfter x c q] := by
  apply (sound_step h x).whereabouts_eq_iff.mpr
  exact h.at_step (h.whereabouts_eq_iff.mp hq) x

/-- A connection that is closed never comes back. -/
theorem Sound.whereabouts_run_of_closed (h : s.Sound) (hc : s.whereabouts c = [.closed])
    (steps : List Step) : (s.run steps).whereabouts c = [.closed] := by
  induction steps generalizing s with
  | nil => exact hc
  | cons x rest ih => exact ih (sound_step h x) (h.whereabouts_step hc x)

/-- The connection was given to the caller, or the caller has it, or it was closed since. -/
def InHandsOf (s : State) (c w : Nat) : Prop :=
  s.whereabouts c = [.handed w] ∨ s.whereabouts c = [.held w] ∨ s.whereabouts c = [.closed]

/-- What a caller was given is not idle before it gives it back itself. -/
theorem Sound.inHandsOf_run (h : s.Sound) (hc : s.InHandsOf c w) (hr : .release w ∉ steps) :
    (s.run steps).InHandsOf c w := by
  induction steps generalizing s with
  | nil => exact hc
  | cons x rest ih =>
    rw [List.mem_cons, not_or] at hr
    refine ih (sound_step h x) ?_ hr.2
    -- a hand-off leads to the caller, and from there only giving it back leads anywhere else
    rcases hc with hq | hq | hq
    · have hstep := h.whereabouts_step hq x
      cases x with
      | receive u | expire u =>
        by_cases hu : u = w
        · exact .inr (.inl (hstep.trans (by simp [placeAfter, hu])))
        · exact .inl (hstep.trans (by simp [placeAfter, hu]))
      | abandon u =>
        by_cases hu : u = w
        · exact .inr (.inr (hstep.trans (by simp [placeAfter, hu])))
        · exact .inl (hstep.trans (by simp [placeAfter, hu]))
      | ask | dialed | release | close | pass => exact .inl hstep
    · have hstep := h.whereabouts_step hq x
      cases x with
      | release u =>
        have hu : u ≠ w := fun hu => hr.1 (hu ▸ rfl)
        exact .inr (.inl (hstep.trans (by simp [placeAfter, hu])))
      | abandon u =>
        by_cases hu : u = w
        · exact .inr (.inr (hstep.trans (by simp [placeAfter, hu])))
        · exact .inr (.inl (hstep.trans (by simp [placeAfter, hu])))
      | ask | receive | expire | dialed | close | pass => exact .inr (.inl hstep)
    · exact .inr (.inr (h.whereabouts_step hq x))

/-- A connection is reused only while it is not too old. -/
theorem Sound.fresh_of_reused (h : s.Sound) (hc : s.whereabouts c = [.idle])
    (ht : (s.step (.ask t)).whereabouts c = [.held t]) :
    ∃ i ∈ s.idle, i.connection = c ∧ s.isExpired i = false := by
  have hstep := h.whereabouts_step hc (.ask t)
  have hplace : s.placeAfter (.ask t) c .idle = .held t :=
    List.singleton_injective (hstep.symm.trans ht)
  simp only [placeAfter] at hplace
  split at hplace
  · cases hplace
  split at hplace
  · cases hplace
  split at hplace
  · rename_i hreused
    obtain ⟨i, hi, rfl⟩ := Option.map_eq_some_iff.mp hreused
    have hmem : i ∈ s.idle.dropWhile s.isExpired := List.mem_of_head? hi
    refine ⟨i, List.dropWhile_subset _ hmem, rfl, ?_⟩
    have hne : s.idle.dropWhile s.isExpired ≠ [] := List.ne_nil_of_mem hmem
    have hhead := List.head_dropWhile_not s.isExpired hne
    rw [List.head?_eq_some_head hne] at hi
    rwa [Option.some.inj hi] at hhead
  · cases hplace

def Opened (s₀ : State) (steps : List Step) (c : Nat) : Prop :=
  ∃ earlier t later, steps = earlier ++ .dialed t (.ok ()) :: later ∧
    (s₀.run earlier).phase? t = some (.dialing c)

theorem opened_concat (h : Opened s₀ (steps ++ [x]) c) : Opened s₀ steps c ∨
    ∃ t, x = .dialed t (.ok ()) ∧ (s₀.run steps).phase? t = some (.dialing c) := by
  obtain ⟨earlier, t, later, heq, hp⟩ := h
  rcases List.eq_nil_or_concat' later with rfl | ⟨later, y, rfl⟩
  · obtain ⟨rfl, hx⟩ := List.append_inj' heq rfl
    exact .inr ⟨t, List.singleton_injective hx, hp⟩
  · have heq : steps ++ [x] = (earlier ++ .dialed t (.ok ()) :: later) ++ [y] := by simp [heq]
    obtain ⟨hsteps, -⟩ := List.append_inj' heq rfl
    exact .inl ⟨earlier, t, later, hsteps, hp⟩

/-- Each opened connection is somewhere. -/
theorem exists_at_of_opened (h : s₀.Sound) (hc : Opened s₀ steps c) :
    ∃ q, (s₀.run steps).At c q := by
  induction steps using List.reverseRecOn with
  | nil =>
    obtain ⟨earlier, t, later, heq, -⟩ := hc
    simp at heq
  | append_singleton steps x ih =>
    rw [run_concat]
    rcases opened_concat hc with hc | ⟨t, rfl, hp⟩
    · obtain ⟨q, hq⟩ := ih hc
      exact ⟨_, (sound_run h steps).at_step hq x⟩
    · -- the caller that opened it has it
      refine ⟨.held t, ?_⟩
      simp only [At, step, dialed, hp]
      exact phase?_hold.trans (if_pos rfl)

/-- An idle connection is so since its caller gave it back. -/
theorem idleSince_of_mem (h : s₀.Sound) (hnil : s₀.idle = []) {i : Idle}
    (hi : i ∈ (s₀.run steps).idle) : IdleSince s₀ steps i := by
  induction steps using List.reverseRecOn with
  | nil => simp [run, hnil] at hi
  | append_singleton steps x ih =>
    have hs := sound_run h steps
    have hidle := idle_step hs.balanced hs.lined.nodup_waiters x
    rw [run_concat, hidle] at hi
    rcases (s₀.run steps).idleAfter_cases x with hsub | ⟨t, c, rfl, hp, hnew⟩
    · refine idleSince_concat (ih (hsub.subset hi)) ?_
      rwa [run_concat, hidle]
    · have hmem : i ∈ (s₀.run (steps ++ [.release t])).idle := by rwa [run_concat, hidle]
      rw [hnew, List.mem_append, List.mem_singleton] at hi
      rcases hi with hi | rfl
      · exact idleSince_concat (ih hi) hmem
      · refine ⟨steps, t, [], rfl, hp, rfl, ?_⟩
        intro part hpart
        rw [List.prefix_nil.mp hpart]
        exact hmem

/-- Each connection of a pool has one place, and none that was idle for too long is used again. -/
structure Custody (s₀ : State) (steps : List Step) (s : State) : Prop where
  in_one_place : ∀ c, Opened s₀ steps c → ∃ q, s.whereabouts c = [q]
  moves : ∀ c q x, s.whereabouts c = [q] → (s.step x).whereabouts c = [s.placeAfter x c q]
  closed_for_good : ∀ c more, c ∈ s.dropped → (s.run more).whereabouts c = [.closed]
  /-- What is given back while somebody waits goes straight to the first of those that wait. -/
  handed_on : ∀ t c w rest, s.phase? t = some (.holding c) → s.liveLine = w :: rest →
    (s.step (.release t)).whereabouts c = [.handed w] ∧ (s.step (.release t)).idle = s.idle ∧
      ∀ more, .release w ∉ more → ((s.step (.release t)).run more).InHandsOf c w
  in_order : s.idle.Pairwise fun i j => i.lastActive ≤ j.lastActive
  idle_since : ∀ i ∈ s.idle, IdleSince s₀ steps i
  fresh : ∀ t c, s.whereabouts c = [.idle] → (s.step (.ask t)).whereabouts c = [.held t] →
    ∃ i ∈ s.idle, i.connection = c ∧
      (s₀.config.idleTimeout ≠ .zero → s.now - i.lastActive ≤ s₀.config.idleTimeout.nanos)

/-- In whatever order callers ask, wait, dial, take, release and leave, time passes and the pool is
closed: each connection that was opened is idle, on its way to one caller, with one caller, or
closed, and in one of these places only; a step moves it as its place says, and never away from
where it is closed. What is given back while somebody waits is not idle before it was used and given
back again. The idle ones are in the order in which they became idle, and a caller gets one only if
that was not too long ago. -/
theorem connections_in_custody {config : PoolConfig} (h : ofConfig config = .ok s₀)
    (steps : List Step) : Custody s₀ steps (s₀.run steps) := by
  have h₀ := sound_ofConfig h
  have hs := sound_run h₀ steps
  have hnil : s₀.idle = [] := by
    unfold ofConfig at h
    split at h
    · cases h
    · cases h
      rfl
  refine ⟨?_, fun c q x hq => hs.whereabouts_step hq x, ?_, ?_, hs.ordered.in_order,
    fun i hi => idleSince_of_mem h₀ hnil hi, ?_⟩
  · intro c hc
    obtain ⟨q, hq⟩ := exists_at_of_opened h₀ hc
    exact ⟨q, hs.whereabouts_eq_iff.mpr hq⟩
  · intro c more hc
    exact hs.whereabouts_run_of_closed (hs.whereabouts_eq_iff.mpr hc) more
  · intro t c w rest hp hl
    have hheld : (s₀.run steps).whereabouts c = [.held t] := hs.whereabouts_eq_iff.mpr hp
    have hstep := hs.whereabouts_step hheld (.release t)
    simp only [placeAfter, if_pos, givenBack, hl] at hstep
    have hidle := (giveBack_of_liveLine_cons hs.lined.nodup_waiters hp hl).2
    rw [← step_release hp] at hidle
    exact ⟨hstep, hidle, fun more hr => (sound_step hs _).inHandsOf_run (.inl hstep) hr⟩
  · intro t c hc ht
    obtain ⟨i, hi, rfl, hfresh⟩ := hs.fresh_of_reused hc ht
    refine ⟨i, hi, rfl, ?_⟩
    intro hzero
    have hconfig : (s₀.run steps).config = s₀.config := (frame_run h₀.balanced steps).config_eq
    have hnanos : s₀.config.idleTimeout.isZero = false :=
      beq_eq_false_iff_ne.mpr fun hn => hzero (congrArg Duration.mk hn)
    rw [isExpired, hconfig, hnanos, Bool.not_false, Bool.true_and,
      decide_eq_false_iff_not] at hfresh
    omega

/-- A connection that was idle just as long as it may be is used again, and then goes from its
caller to the one that waits. -/
theorem connections_in_custody_reused :
    let config : PoolConfig := { maxOpen := 1, idleTimeout := .ofMillis 5 }
    let steps : List Step :=
      [.ask 1, .dialed 1 (.ok ()), .release 1, .pass 5000000, .ask 2, .ask 3, .release 2]
    (run { config } steps).whereabouts 1 = [.handed 3] ∧
    Custody { config } steps (run { config } steps) := by
  intro config steps
  exact ⟨by decide, @connections_in_custody { config } config rfl steps⟩

end State
end RemoteCall.Pool
