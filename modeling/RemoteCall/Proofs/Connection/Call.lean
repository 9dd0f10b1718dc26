import RemoteCall.Client
import RemoteCall.Proofs.Connection.Order
import RemoteCall.Proofs.Work

/-! Calls as work make no moves but those of traffic, and servers do with frames what `Serves` says.

Any number of calls may therefore be at work at once, cut wherever their contexts finish. -/
namespace RemoteCall

/-- A state keeps the traffic that it is given, or the one that it had. -/
structure Lines.IsLawful {σ : Type} (l : Lines σ) : Prop where
  traffic_setTraffic : ∀ t s, l.traffic (l.setTraffic t s) = t ∨
    l.traffic (l.setTraffic t s) = l.traffic s

/-- Whoever is reached serves frames, and nobody there breaks `P`. -/
def Network.IsServed {σ : Type} (network : Network σ) (P : σ → Prop) : Prop :=
  ∀ address, (network address).Keeps P fun r =>
    ∀ peer, r = .ok peer → ∀ frame, (peer frame).Keeps P (Serves frame)

namespace Lines
variable {σ : Type} {l : Lines σ} {network : Network σ} {t : Nat} {r : Request} {m : Move}

def IsSound (l : Lines σ) (s : σ) : Prop := (l.traffic s).Sound

/-- A move that a serving peer can make leaves the traffic sound. -/
theorem keeps_move (hl : l.IsLawful) (hm : m.IsServed) : (l.move m).Keeps l.IsSound
    fun _ => True := by
  refine Work.keeps_modify fun s hs => ?_
  unfold IsSound
  rcases hl.traffic_setTraffic ((l.traffic s).step m) s with h | h
  · rw [h]
    exact Traffic.sound_step hs hm
  · rw [h]
    exact hs

section
variable {P : σ → Prop} (hl : ∀ m : Move, m.IsServed → (l.move m).Keeps P fun _ => True)
include hl

theorem keeps_moveAt (hm : m.IsServed) : (l.moveAt m).Keeps P fun _ => True := by
  refine .clock _ fun now => Work.keeps_bind Work.keeps_get fun s hs => ?_
  exact Work.keeps_bind (hl _ trivial) fun _ _ => hl m hm

omit hl in
theorem keeps_connect (hn : network.IsServed P) : (l.connect network).Keeps P fun _ => True := by
  have hw : (network l.address).Keeps P fun _ => True :=
    (hn l.address).weaken fun _ _ => trivial
  unfold connect
  dsimp only
  split
  · exact hw
  · exact Work.keeps_timeLimit hw trivial

theorem keeps_dial (hn : network.IsServed P) : (l.dial network t).Keeps P fun _ => True := by
  refine Work.keeps_bind Work.keeps_get fun s hs => ?_
  split
  · exact Work.keeps_bind (keeps_connect hn) fun _ _ => keeps_moveAt hl trivial
  · exact Work.keeps_pure trivial

theorem keeps_acquire (hn : network.IsServed P) : (l.acquire network t r).Keeps P
    fun _ => True := by
  refine Work.keeps_bind (keeps_moveAt hl trivial) fun _ _ =>
    Work.keeps_bind Work.keeps_get fun s hs => ?_
  dsimp only
  split
  · exact .never
  · refine Work.keeps_bind Work.keeps_sleep fun _ _ => ?_
    exact Work.keeps_bind (keeps_moveAt hl trivial) fun _ _ => keeps_dial hl hn
  · exact keeps_dial hl hn

/-- The peer does what servers do. -/
theorem keeps_handleNext {c : Nat} {frame : ByteArray} (hn : network.IsServed P) :
    (l.handleNext network c frame).Keeps P fun _ => True := by
  refine Work.keeps_bind (hn l.address) fun reached hpeer => ?_
  cases reached with
  | error e => exact hl _ trivial
  | ok peer => exact Work.keeps_bind (hpeer peer rfl frame) fun h hh => hl _ hh

/-- As long as the peer serves, writing a request and reading the response leaves the traffic sound.
-/
theorem keeps_exchange (hn : network.IsServed P) (fuel : Nat) :
    (l.exchange network t fuel).Keeps P fun _ => True := by
  -- on the rounds; each of them makes one move or hands one frame to the peer
  induction fuel with
  | zero => exact .never
  | succ fuel ih =>
    refine Work.keeps_bind Work.keeps_get fun s hs => ?_
    dsimp only
    split
    · exact Work.keeps_bind (keeps_moveAt hl trivial) fun _ _ => ih
    · split
      · exact Work.keeps_bind (keeps_moveAt hl trivial) fun _ _ => ih
      · split
        · exact Work.keeps_bind (hl _ trivial) fun _ _ => ih
        · split
          · exact Work.keeps_bind (keeps_handleNext hl hn) fun _ _ => ih
          · exact .never
    · exact Work.keeps_pure trivial

/-- So does the part of a call that its context bounds. -/
theorem keeps_attempt (hn : network.IsServed P) : (l.attempt network t r).Keeps P
    fun _ => True := by
  refine Work.keeps_bind (keeps_acquire hl hn) fun _ _ => ?_
  refine Work.keeps_bind (keeps_moveAt hl trivial) fun _ _ =>
    Work.keeps_bind Work.keeps_get fun s hs => ?_
  refine Work.keeps_bind (keeps_exchange hl hn _) fun _ _ =>
    Work.keeps_bind Work.keeps_get fun s' hs' => ?_
  split
  · exact Work.keeps_pure trivial
  · exact .never

/-- A call keeps what moves keep, wherever its context cuts it. -/
theorem keeps_call {cancels : Cancels} {context : Context} (hn : network.IsServed P) :
    (l.call network cancels context r).Keeps P fun _ => True := by
  refine .clock _ fun now => ?_
  dsimp only
  split
  · exact .crash
  · refine Work.keeps_bind Work.keeps_get fun s hs => ?_
    refine Work.keeps_bind (Work.keeps_bound (keeps_attempt hl hn) fun _ => trivial)
      fun outcome _ => ?_
    cases outcome with
    | ok response => exact Work.keeps_pure trivial
    | error e => exact Work.keeps_bind (keeps_moveAt hl trivial) fun _ _ => Work.keeps_pure trivial

end

end Lines

/-! Calls do not break down by themselves. -/

def Network.IsIntact {σ : Type} (network : Network σ) : Prop :=
  ∀ address, (network address).IsIntact ∧
    ∀ peer, (network address).Yields (some (.ok peer)) → ∀ frame, (peer frame).IsIntact

namespace Lines
variable {σ : Type} {l : Lines σ} {network : Network σ} {t : Nat} {r : Request} {m : Move}

end Lines

theorem Client.lawful_lines {ω : Type} (c : Client ω) : c.lines.IsLawful := ⟨fun _ _ => .inl rfl⟩

/-- However many calls a client has at work at once, its connections stay in order. -/
theorem Client.orderly_calls {ω : Type} {address : String} {config : ClientConfig} {world : ω}
    {c : Client ω} (hc : Client.ofConfig address config world = .ok c)
    {network : Network (Client ω)} (hn : network.IsServed c.lines.IsSound) (cancels : Cancels)
    (calls : List (Context × Request)) (now : Clock) :
    ((Work.all (calls.map fun (context, request) =>
      c.lines.call network cancels context request)).run
      now c).2.2.traffic.Orderly := by
  have hs : c.traffic.Sound := by
    obtain ⟨traffic, ht, hcl⟩ := bind_eq_ok.mp hc
    cases hcl
    exact Traffic.sound_ofConfig ht
  have hkeeps : (Work.all (calls.map fun (context, request) =>
      c.lines.call network cancels context request)).Keeps c.lines.IsSound fun _ => True :=
    (Work.keeps_all (Q := fun _ _ => True) fun _ _ =>
      Lines.keeps_call (fun _ => Lines.keeps_move c.lawful_lines) hn).weaken fun _ _ => trivial
  have hsound : (Work.run _ now c).2.2.traffic.Sound := (Work.keeps_run hkeeps hs).1
  exact hsound.orderly

end RemoteCall
