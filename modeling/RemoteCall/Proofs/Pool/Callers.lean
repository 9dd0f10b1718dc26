import RemoteCall.Pool.Basic
import Mathlib.Data.List.Perm.Basic

/-! What is known of the callers of a pool by their tickets, and what each change of one caller
leaves as it was. A caller that gets a phase is taken out of the list and put in front of it, so the
list matters only up to its order. -/
namespace RemoteCall.Pool

namespace Phase

def isAdmitted : Phase → Bool
  | handed _ | dialing _ | holding _ => true
  | queued | refused => false

def connections : Phase → List Nat
  | handed (.connection c) | dialing c | holding c => [c]
  | handed .slot | queued | refused => []

theorem length_connections_le (p : Phase) : p.connections.length ≤ p.isAdmitted.toNat := by
  cases p with
  | handed h => cases h <;> simp [connections, isAdmitted]
  | _ => simp [connections, isAdmitted]

end Phase

namespace State
variable {s : State} {t u c n : Nat} {p : Phase}

theorem phase?_cons (l : List Caller) (hl : s.callers = ⟨t, p⟩ :: l) :
    s.phase? u = if u = t then some p else { s with callers := l }.phase? u := by
  simp only [phase?, hl, List.find?_cons]
  by_cases h : u = t
  · simp [h]
  · have hb : (t == u) = false := by simpa using Ne.symm h
    simp only [hb, h, ↓reduceIte]

@[simp] theorem phase?_forget :
    (s.forget t).phase? u = if u = t then none else s.phase? u := by
  simp only [phase?, forget, List.find?_filter]
  by_cases h : u = t
  · subst h
    simp
  · have hp : (fun a : Caller => decide ((a.ticket != t) = true ∧ (a.ticket == u) = true)) =
        fun a => a.ticket == u := by
      funext a
      by_cases ha : a.ticket = u
      · simp [ha, h]
      · simp [ha]
    simp only [h, ↓reduceIte, hp]

@[simp] theorem phase?_setPhase :
    (s.setPhase t p).phase? u = if u = t then some p else s.phase? u := by
  rw [phase?_cons (s := s.setPhase t p) (t := t) (p := p) _ rfl]
  by_cases h : u = t
  · simp only [h, ↓reduceIte]
  · have hf : ({ s.setPhase t p with callers := (s.forget t).callers } : State).phase? u =
        (s.forget t).phase? u := rfl
    rw [if_neg h, if_neg h]
    exact hf.trans (by rw [phase?_forget, if_neg h])

@[simp] theorem phase?_answer (r : Result Nat) : (s.answer t r).phase? u = s.phase? u := rfl
@[simp] theorem phase?_drop : (s.drop c).phase? u = s.phase? u := rfl
@[simp] theorem phase?_withIdle (l : List Idle) : (s.withIdle l).phase? u = s.phase? u := rfl
@[simp] theorem phase?_withLine (l : List Nat) : (s.withLine l).phase? u = s.phase? u := rfl
@[simp] theorem phase?_takeBack : (s.takeBack n).phase? u = s.phase? u := rfl

@[simp] theorem phase?_hold :
    (s.hold t c).phase? u = if u = t then some (.holding c) else s.phase? u := phase?_setPhase

@[simp] theorem phase?_fail (e : Error) :
    (s.fail t e).phase? u = if u = t then none else s.phase? u := phase?_forget

@[simp] theorem phase?_startDial :
    (s.startDial t).phase? u = if u = t then some (.dialing s.next) else s.phase? u :=
    phase?_setPhase

def tickets (s : State) : List Nat := s.callers.map (·.ticket)

theorem mem_tickets : t ∈ s.tickets ↔ s.phase? t ≠ none := by
  simp [tickets, phase?, List.find?_eq_none]

theorem tickets_forget : (s.forget t).tickets = s.tickets.filter (· != t) := by
  simp only [tickets, forget, List.filter_map]
  rfl

theorem nodup_tickets_forget (h : s.tickets.Nodup) : (s.forget t).tickets.Nodup := by
  rw [tickets_forget]
  exact h.filter _

theorem nodup_tickets_setPhase (h : s.tickets.Nodup) : (s.setPhase t p).tickets.Nodup := by
  have ht : (s.setPhase t p).tickets = t :: (s.forget t).tickets := rfl
  rw [ht, tickets_forget]
  exact List.nodup_cons.mpr ⟨by simp, h.filter _⟩

theorem callers_forget_of_none (hp : s.phase? t = none) : (s.forget t).callers = s.callers := by
  apply List.filter_eq_self.mpr
  intro a ha
  have hn : t ∉ s.tickets := fun h => mem_tickets.mp h hp
  have hat : a.ticket ≠ t := fun h => hn (h ▸ List.mem_map_of_mem ha)
  simpa using hat

theorem forget_of_none (hp : s.phase? t = none) : s.forget t = s :=
  congrArg (fun l => { s with callers := l }) (callers_forget_of_none hp)

/-- Up to the order, a caller is one of the list and the others are the rest. -/
theorem callers_perm (h : s.tickets.Nodup) (hp : s.phase? t = some p) :
    s.callers.Perm (⟨t, p⟩ :: (s.forget t).callers) := by
  obtain ⟨a, ha, rfl⟩ := Option.map_eq_some_iff.mp hp
  have hat : a.ticket = t := by simpa using List.find?_some ha
  obtain ⟨l₁, l₂, hl⟩ := List.append_of_mem (List.mem_of_find?_eq_some ha)
  have hd : (l₁.map Caller.ticket ++ t :: l₂.map Caller.ticket).Nodup := by
    simpa [tickets, hl, hat] using h
  -- nobody else has the ticket, so leaving out all of that ticket leaves out this caller only
  have hout (l : List Caller) (hn : t ∉ l.map Caller.ticket) : l.filter (·.ticket != t) = l := by
    apply List.filter_eq_self.mpr
    intro b hb
    have hbt : b.ticket ≠ t := fun e => hn (e ▸ List.mem_map_of_mem hb)
    simpa using hbt
  have hn := (List.nodup_cons.mp (List.perm_middle.nodup_iff.mp hd)).1
  have hf : (s.forget t).callers = l₁ ++ l₂ := by
    have h₁ := hout l₁ fun hm => hn (List.mem_append_left _ hm)
    have h₂ := hout l₂ fun hm => hn (List.mem_append_right _ hm)
    simp [forget, hl, hat, h₁, h₂]
  rw [hf, hl, ← hat]
  exact List.perm_middle

def permits (s : State) : Nat := s.callers.countP (·.phase.isAdmitted)

theorem permits_forget (h : s.tickets.Nodup) (hp : s.phase? t = some p) :
    s.permits = (s.forget t).permits + p.isAdmitted.toNat := by
  have hc := (callers_perm h hp).countP_eq (·.phase.isAdmitted)
  rw [permits, hc, List.countP_cons, permits]
  cases p.isAdmitted <;> rfl

theorem permits_setPhase : (s.setPhase t p).permits = (s.forget t).permits +
    p.isAdmitted.toNat := by
  have hc : (s.setPhase t p).callers = ⟨t, p⟩ :: (s.forget t).callers := rfl
  rw [permits, hc, List.countP_cons, permits]
  cases p.isAdmitted <;> rfl

/-- Nobody in line holds an admission, so refusing the line sets none free. -/
theorem permits_refuseAll : s.refuseAll.permits = s.permits := by
  simp only [permits, refuseAll, List.countP_map]
  apply List.countP_congr
  intro a _
  by_cases h : a.phase = .queued
  · simp [h, Phase.isAdmitted]
  · simp [h]

@[simp] theorem phase?_refuseAll : s.refuseAll.phase? t =
    (s.phase? t).map fun p => if p == .queued then .refused else p := by
  simp only [phase?, refuseAll, List.find?_map, Option.map_map]
  have hf : ((fun c : Caller => c.ticket == t) ∘ fun c : Caller =>
      if c.phase == .queued then { c with phase := .refused } else c) = fun c => c.ticket == t := by
    funext c
    by_cases h : c.phase = .queued <;> simp [h]
  rw [hf]
  congr 1
  funext c
  by_cases h : c.phase = .queued <;> simp [h]

theorem tickets_refuseAll : s.refuseAll.tickets = s.tickets := by
  simp only [tickets, refuseAll, List.map_map]
  apply List.map_congr_left
  intro a _
  by_cases h : a.phase = .queued <;> simp [h]

end State
end RemoteCall.Pool
