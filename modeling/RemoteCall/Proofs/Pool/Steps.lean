import RemoteCall.Proofs.Pool.Callers
import Mathlib.Data.List.TakeWhile

/-! What a step of a pool can do, said once: every invariant of pools is kept by these cases. -/
namespace RemoteCall.Pool

def Step.actor? : Step → Option Nat
  | ask t | receive t | expire t | dialed t _ | release t | abandon t => some t
  | close | pass _ => none

namespace State
variable {s : State} {t w : Nat} {rest : List Nat} {x : Step}

/-- The line begins with a caller that stands in it; those before it are passed over. -/
theorem line_eq_cons (h : s.line = w :: rest) : s.phase? w = some .queued ∧
    ∃ gone, s.waiters = gone ++ w :: rest ∧ ∀ v ∈ gone, s.isLive v = false := by
  have hne : s.waiters.dropWhile (fun w => !s.isLive w) ≠ [] := by
    change s.line ≠ []
    simp [h]
  have hw := List.head_dropWhile_not (fun w => !s.isLive w) hne
  have hh : (s.waiters.dropWhile fun w => !s.isLive w).head hne = w := by
    change s.line.head hne = w
    simp only [h, List.head_cons]
  rw [hh] at hw
  refine ⟨by simpa [isLive] using hw, s.waiters.takeWhile fun w => !s.isLive w, ?_, ?_⟩
  · rw [← h]
    exact List.takeWhile_append_dropWhile.symm
  · intro v hv
    simpa using List.mem_takeWhile_imp hv

theorem line_eq_nil : s.line = [] ↔ ∀ w ∈ s.waiters, s.isLive w = false := by
  simp [line, List.dropWhile_eq_nil_iff]

/-- Of some idle connections, those that are too old are closed and their admissions taken back. -/
def sweep (s : State) (l : List Idle) : State :=
  { s.takeBack (l.takeWhile s.isExpired).length with
    idle := l.dropWhile s.isExpired
    dropped := s.dropped ++ (l.takeWhile s.isExpired).map (·.connection) }

def swept (s : State) : State := s.sweep s.idle

theorem sweep_nil : s.sweep [] = s.withIdle [] := by simp [sweep, withIdle, takeBack]

theorem sweep_cons_of_fresh {i : Idle} {l : List Idle} (h : s.isExpired i = false) :
    s.sweep (i :: l) = s.withIdle (i :: l) := by
  simp [sweep, withIdle, takeBack, h]

theorem sweep_cons_of_expired {i : Idle} {l : List Idle} (h : s.isExpired i = true) :
    s.sweep (i :: l) = (((s.withIdle l).drop i.connection).takeBack 1).sweep l := by
  have he : (((s.withIdle l).drop i.connection).takeBack 1).isExpired = s.isExpired := rfl
  simp only [sweep, he, List.takeWhile_cons, List.dropWhile_cons, h, ↓reduceIte]
  simp only [takeBack, drop, withIdle, State.mk.injEq, true_and, and_true, List.length_cons,
    List.map_cons, List.append_assoc, List.cons_append, List.nil_append]
  omega

/-- With nobody in line, what is taken is the first of the idle connections that are not too old. -/
theorem takeIdle_eq {l : List Idle} (h : l = [] ∨ s.waiters = []) : s.takeIdle l =
    ((s.sweep l).withIdle (s.sweep l).idle.tail, (s.sweep l).idle.head?.map (·.connection)) := by
  induction l generalizing s with
  | nil => simp [takeIdle, sweep_nil, withIdle]
  | cons i rest ih =>
    have hw : s.waiters = [] := h.resolve_left (List.cons_ne_nil _ _)
    have he : (s.withIdle rest).isExpired i = s.isExpired i := rfl
    rw [takeIdle, he]
    cases hi : s.isExpired i with
    | true =>
      -- nobody is in line, so the admission that becomes free is taken back
      have hf : ((s.withIdle rest).drop i.connection).freeSlot =
          ((s.withIdle rest).drop i.connection).takeBack 1 := by
        simp [freeSlot, line, withIdle, withLine, drop, hw]
      rw [sweep_cons_of_expired hi, if_pos rfl, hf]
      exact ih (.inr hw)
    | false =>
      rw [sweep_cons_of_fresh hi]
      rfl

inductive Admitting (s : State) (t : Nat) : State → Prop
  | closed (hc : s.closed = true) : Admitting s t (s.fail t closedError)
  | reused (hc : s.closed = false) (i : Idle) (rest : List Idle) (hi : s.swept.idle = i :: rest) :
    Admitting s t ((s.swept.withIdle rest).hold t i.connection)
  | dials (hc : s.closed = false) (hi : s.swept.idle = [])
    (hm : s.swept.admitted < s.config.maxOpen.toNat) :
    Admitting s t ({ s.swept with admitted := s.swept.admitted + 1 }.startDial t)
  | busy (hc : s.closed = false) (hi : s.swept.idle = [])
    (hm : s.config.maxOpen.toNat ≤ s.swept.admitted) (hf : s.config.failFast = true) :
    Admitting s t (s.swept.fail t (busyError s.swept.admitted))
  | queues (hc : s.closed = false) (hi : s.swept.idle = [])
    (hm : s.config.maxOpen.toNat ≤ s.swept.admitted) (hf : s.config.failFast = false) :
    Admitting s t ((s.swept.withLine (s.waiters ++ [t])).setPhase t .queued)

/-- These are all ways in which a caller that asks can be answered. -/
theorem letIn_admitting (h : s.idle = [] ∨ s.waiters = []) : Admitting s t (s.letIn t) := by
  unfold letIn
  split
  · rename_i hc
    exact .closed hc
  · rename_i hc
    have hc : s.closed = false := by simpa using hc
    rw [takeIdle_eq h, ← swept]
    cases hi : s.swept.idle with
    | cons i rest => exact .reused hc i rest hi
    | nil =>
      have he : s.swept.withIdle [] = s.swept := by
        conv_rhs => rw [show s.swept = s.swept.withIdle s.swept.idle from rfl, hi]
      simp only [List.head?_nil, Option.map_none, List.tail_nil, he]
      split
      · rename_i hm
        exact .dials hc hi hm
      · rename_i hm
        have hm : s.config.maxOpen.toNat ≤ s.swept.admitted := Nat.le_of_not_lt hm
        split
        · rename_i hf
          exact .busy hc hi hm hf
        · rename_i hf
          have hf : s.config.failFast = false := Bool.eq_false_iff.mpr hf
          exact .queues hc hi hm hf

/-- What comes of a step, by the place in which it finds its caller. -/
inductive Stepping (s : State) : Step → State → Prop
  | rests (x : Step) : Stepping s x s
  | asks (t : Nat) (s' : State) (ht : t ∉ s.asked) (hp : s.phase? t = none)
    (ha : Admitting { s with asked := t :: s.asked } t s') : Stepping s (.ask t) s'
  | takes (x : Step) (t c : Nat) (hx : x.actor? = some t)
    (hp : s.phase? t = some (.handed (.connection c))) : Stepping s x (s.hold t c)
  | dials (x : Step) (t : Nat) (hx : x.actor? = some t) (hp : s.phase? t = some (.handed .slot)) :
    Stepping s x (s.startDial t)
  | fails (x : Step) (t : Nat) (p : Phase) (e : Error) (hx : x.actor? = some t)
    (hp : s.phase? t = some p) (hn : p = .queued ∨ p = .refused) : Stepping s x (s.fail t e)
  | opens (t c : Nat) (hp : s.phase? t = some (.dialing c)) :
    Stepping s (.dialed t (.ok ())) (s.hold t c)
  | opensNot (t c : Nat) (e : Error) (hp : s.phase? t = some (.dialing c)) :
    Stepping s (.dialed t (.error e)) (s.fail t e).freeSlot
  | releases (t c : Nat) (hp : s.phase? t = some (.holding c)) :
    Stepping s (.release t) ((s.forget t).giveBack c)
  | drops (t c : Nat) (p : Phase) (hp : s.phase? t = some p)
    (hc : p = .holding c ∨ p = .handed (.connection c)) :
    Stepping s (.abandon t) ((s.forget t).drop c).freeSlot
  | frees (t : Nat) (p : Phase) (hp : s.phase? t = some p)
    (hn : p = .handed .slot ∨ ∃ c, p = .dialing c) : Stepping s (.abandon t) (s.forget t).freeSlot
  | leaves (t : Nat) (p : Phase) (hp : s.phase? t = some p) (hn : p = .queued ∨ p = .refused) :
    Stepping s (.abandon t) (s.forget t)
  | closes : Stepping s .close s.close
  | passes (span : Nat) : Stepping s (.pass span) (s.pass span)

theorem stepping_receive (hx : x.actor? = some t) : Stepping s x (s.receive t) := by
  unfold receive
  split
  · rename_i c hp
    exact .takes x t c hx hp
  · rename_i hp
    exact .dials x t hx hp
  · rename_i hp
    exact .fails x t _ _ hx hp (.inr rfl)
  · exact .rests x

theorem stepping_abandon : Stepping s (.abandon t) (s.abandon t) := by
  cases hp : s.phase? t with
  | none =>
    have ha : s.abandon t = s := by simp [abandon, hp, forget_of_none hp]
    rw [ha]
    exact .rests _
  | some p =>
    rcases p with _ | (c | _) | _ | c | c <;> simp only [abandon, hp]
    · exact .leaves t _ hp (.inl rfl)
    · exact .drops t c _ hp (.inr rfl)
    · exact .frees t _ hp (.inl rfl)
    · exact .leaves t _ hp (.inr rfl)
    · exact .frees t _ hp (.inr ⟨c, rfl⟩)
    · exact .drops t c _ hp (.inl rfl)

/-- Nobody waits while there is something idle, and all callers have asked: then these are all
cases. -/
theorem stepping (hi : s.idle = [] ∨ s.waiters = []) (ha : ∀ v ∈ s.tickets, v ∈ s.asked)
    (x : Step) : Stepping s x (s.step x) := by
  cases x with
  | ask t =>
    change Stepping s (.ask t) (if t ∈ s.asked then s else s.ask t)
    split
    · exact .rests _
    · rename_i ht
      -- a caller that is known has asked before
      have hp : s.phase? t = none := by
        by_contra hne
        exact ht (ha t (mem_tickets.mpr hne))
      exact .asks t _ ht hp (letIn_admitting hi)
  | receive t => exact stepping_receive rfl
  | expire t =>
    change Stepping s (.expire t) (s.expire t)
    unfold expire
    split
    · rename_i hp
      exact .fails _ t _ _ rfl hp (.inl rfl)
    · exact stepping_receive rfl
  | dialed t r =>
    change Stepping s (.dialed t r) (s.dialed t r)
    unfold dialed
    split
    · rename_i c hp
      exact .opens t c hp
    · rename_i c e hp
      exact .opensNot t c e hp
    · exact .rests _
  | release t =>
    change Stepping s (.release t) (s.release t)
    unfold release
    split
    · rename_i c hp
      exact .releases t c hp
    · exact .rests _
  | abandon t => exact stepping_abandon
  | close => exact .closes
  | pass span => exact .passes span

end State
end RemoteCall.Pool
