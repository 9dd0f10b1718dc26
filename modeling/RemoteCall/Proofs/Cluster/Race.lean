import RemoteCall.Proofs.Cluster.Fastest

/-! What calls come to that race for the first success, as answers of a broadcast.

The branches of the broadcast can do what the race does. When it is decided, the winner can tell
first; when all have failed, the loser that it names can tell last; and when the context ends it,
the caller can learn of that. -/
namespace RemoteCall

namespace Context
variable {cancels : Cancels} {context : Context} {cancelAt : Option Int} {now t : Int} {e : Error}

end Context

namespace Broadcast
variable {σ : Type} {s t : Broadcast σ} {a : Action σ}

def heard (s : Broadcast σ) : Nat :=
  s.received.length + (if s.ended then 1 else 0) + if s.stream.isOpen then 0 else 1

theorem Stepping.heard_of_reader (h : s.Stepping a t) (ha : a = .read ∨ a = .hangUp) :
    t.heard = s.heard + 1 := by
  cases h with
  | takes =>
    simp only [heard, List.length_append, List.length_singleton]
    omega
  | ends hreader =>
    obtain ⟨-, -, hended⟩ := hasReader_iff.mp hreader
    simp only [heard, hended, Bool.false_eq_true, ↓reduceIte]
    omega
  | hangsUp hreader =>
    obtain ⟨-, hopen, -⟩ := hasReader_iff.mp hreader
    simp only [heard, hopen, Channel.close, Bool.false_eq_true, ↓reduceIte]
  | _ => simp at ha

theorem Stepping.heard_of_others (h : s.Stepping a t) (hread : a ≠ .read) (hhangUp : a ≠ .hangUp) :
    t.heard = s.heard := by
  obtain ⟨hreceived, hended, hopen⟩ := h.kept hread hhangUp
  rw [heard, heard, hreceived, hended, hopen]

/-- The reader takes back nothing that it has done. -/
theorem heard_le {actions : List (Action σ)} (hrun : s.run? actions = some t) :
    s.heard ≤ t.heard := by
  induction actions generalizing s with
  | nil =>
    cases hrun
    exact Nat.le_refl _
  | cons a rest ih =>
    rw [run?_cons] at hrun
    obtain ⟨u, hu, hrest⟩ := Option.bind_eq_some_iff.mp hrun
    refine Nat.le_trans ?_ (ih hrest)
    by_cases ha : a = .read ∨ a = .hangUp
    · rw [(stepping hu).heard_of_reader ha]
      exact Nat.le_succ _
    · obtain ⟨hread, hhangUp⟩ := not_or.mp ha
      exact Nat.le_of_eq ((stepping hu).heard_of_others hread hhangUp).symm

end Broadcast

namespace Fastest
open Broadcast (Branch)
variable {σ : Type} {s t : Fastest σ} {a : Action σ} {actions : List (Action σ)} {calls : Calls σ}

/-! A broadcast that nothing disturbs -/

def Reaches (s t : Fastest σ) : Prop := ∃ actions, s.run? actions = some t

theorem Reaches.trans {u : Fastest σ} (h : s.Reaches t) (h' : t.Reaches u) : s.Reaches u := by
  obtain ⟨actions, hrun⟩ := h
  obtain ⟨more, hmore⟩ := h'
  refine ⟨actions ++ more, ?_⟩
  rw [run?_append, hrun]
  exact hmore

theorem Reaches.step (h : s.step? a = some t) : s.Reaches t := by
  refine ⟨[a], ?_⟩
  rw [run?_cons, h]
  rfl

/-- What a broadcast can do without its reader, it can do here. -/
theorem reaches_broadcast {b : Broadcast σ} (h : s.broadcast.Reaches b)
    (hheard : b.heard = s.broadcast.heard) : s.Reaches { s with broadcast := b } := by
  obtain ⟨actions, hrun⟩ := h
  refine ⟨actions.map .broadcast, ?_⟩
  induction actions generalizing s with
  | nil =>
    cases hrun
    rfl
  | cons a rest ih =>
    rw [Broadcast.run?_cons] at hrun
    obtain ⟨u, hu, hrest⟩ := Option.bind_eq_some_iff.mp hrun
    have hle := Broadcast.heard_le hrest
    -- the reader would have left a trace
    have ha : ¬ (a = .read ∨ a = .hangUp) := by
      intro ha
      have hmore := (Broadcast.stepping hu).heard_of_reader ha
      omega
    obtain ⟨hread, hhangUp⟩ := not_or.mp ha
    have hsame := (Broadcast.stepping hu).heard_of_others hread hhangUp
    have hstep : s.step? (.broadcast a) = some { s with broadcast := u } := by
      rw [step?, hu]
      · rfl
      · exact hread
      · exact hhangUp
    rw [List.map_cons, run?_cons, hstep]
    exact ih (s := { s with broadcast := u }) (hheard.trans hsame.symm) hrest

section
variable {i : Nat} {b : Branch σ} {o : Result Response}

/-- The caller reads and has read all that was told, and there is room. -/
structure Idle (s : Fastest σ) : Prop where
  reading : s.isReading = true
  waiting : s.broadcast.stream.waiting = []
  room : 0 < s.broadcast.stream.room

def told (s : Fastest σ) (i : Nat) (reply : InstanceReply) : Fastest σ := { s with
  broadcast.branches := s.broadcast.branches.set i ⟨reply.address, .gone reply.outcome⟩
  broadcast.stream := { s.broadcast.stream with senders := s.broadcast.stream.senders - 1 }
  broadcast.received := s.broadcast.received ++ [reply] }

/-- Where a call has broken down, its branch goes, and the caller does not learn of it. -/
theorem Idle.reaches_lost (h : s.Idle) (hb : s.broadcast.branches[i]? = some b)
    (hdone : b.IsDone none) :
    let t : Fastest σ := { s with
      broadcast.branches := s.broadcast.branches.set i ⟨b.address, .lost⟩
      broadcast.stream := s.broadcast.stream.dropSender }
    s.Reaches t ∧ t.Idle :=
  ⟨reaches_broadcast (Broadcast.reaches_lost s.broadcast hb hdone) rfl,
    h.reading, h.waiting, h.room⟩

def HaveCrashed (s : Fastest σ) (order : List Nat) : Prop :=
  ∀ i ∈ order, ∃ b : Branch σ, s.broadcast.branches[i]? = some b ∧ b.IsDone none

/-- These branches have gone without a success, and the caller remembers a failure only if one was
told. -/
structure HaveGone (s : Fastest σ) (order : List Nat) (t : Fastest σ) : Prop where
  reaches : s.Reaches t
  idle : t.Idle
  clock_eq : t.broadcast.clock = s.broadcast.clock
  state_eq : t.broadcast.state = s.broadcast.state
  senders_eq : t.broadcast.stream.senders = s.broadcast.stream.senders - order.length
  last_eq : s.HaveCrashed order → t.last = s.last
  others : ∀ j ∉ order, t.broadcast.branches[j]? = s.broadcast.branches[j]?

theorem HaveGone.cons {u : Fastest σ} {order : List Nat} (hi : i ∉ order) (h : s.HaveGone [i] u)
    (h' : u.HaveGone order t) : s.HaveGone (i :: order) t where
  reaches := h.reaches.trans h'.reaches
  idle := h'.idle
  clock_eq := h'.clock_eq.trans h.clock_eq
  state_eq := h'.state_eq.trans h.state_eq
  senders_eq := by
    rw [h'.senders_eq, h.senders_eq, List.length_singleton, List.length_cons]
    omega
  last_eq hcrashed := by
    obtain ⟨hfirst, hrest⟩ := List.forall_mem_cons.mp hcrashed
    refine (h'.last_eq fun j hj => ?_).trans (h.last_eq (List.forall_mem_singleton.mpr hfirst))
    obtain ⟨b, hb, hdone⟩ := hrest j hj
    exact ⟨b, (h.others j fun hmem => hi (List.mem_singleton.mp hmem ▸ hj)).trans hb, hdone⟩
  others j hj :=
    (h'.others j (List.not_mem_of_not_mem_cons hj)).trans
      (h.others j fun hmem => List.ne_of_not_mem_cons hj (List.mem_singleton.mp hmem))

end

section
variable {clock clock' : Clock} {state state' : σ} {context : Context} {scopes : Cancellation}

def launched (clock : Clock) (state : σ) (calls : Calls σ) (branches : List (Branch σ))
    (context : Context) (scopes : Cancellation) :
    Fastest σ := { start clock state calls context scopes with
  broadcast.pending := none
  broadcast.branches := branches
  broadcast.stream := { room := calls.length, senders := calls.length } }

/-- Work that follows the branches of some calls shows how far these can come. -/
theorem reaches_launched {α : Type} {Q : α → List (Branch σ) → Prop} {w : Work σ α} {a : α}
    (hfollows : Broadcast.Follows Q w clock.mono
      (calls.map fun (address, call) => ⟨address, .calling clock.mono call⟩))
    (hrun : w.run clock state = (some a, clock', state')) : ∃ branches, Q a branches ∧
      branches.length = calls.length ∧
      (start clock state calls context scopes).Reaches
        (launched clock' state' calls branches context scopes) := by
  have hbegun := Broadcast.reaches_launched calls (.start clock state calls) (m := 0) rfl rfl
  obtain ⟨branches, hbranches, hmoved⟩ := hfollows.reaches { Broadcast.start clock state calls with
    pending := none
    stream := { room := calls.length, senders := 0 + calls.length } } rfl hrun
  rw [Nat.zero_add] at hbegun hmoved
  have hreaches : (Broadcast.start clock state calls).Reaches
      (launched clock' state' calls branches context scopes).broadcast := hbegun.trans hmoved
  refine ⟨branches, hbranches, ?_,
    reaches_broadcast (s := start clock state calls context scopes) hreaches rfl⟩
  obtain ⟨actions, hactions⟩ := hreaches
  exact (Broadcast.sound_run (Broadcast.sound_start clock state calls) hactions).length_eq rfl

section
variable {cancels : Cancels} {address : String} {call : Work σ (Result Response)} {rest : Calls σ}
  {o : Result Response} {e : Error}

end

end

end Fastest

/-! The branches of a cluster -/

section
variable {σ : Type} {cancels : Cancels} {handler : Handler (Work σ)}
  {interceptors : List (Interceptor (Work σ))}

end

namespace Cluster
variable {ω : Type} {network : Network (Cluster ω)} {cancels : Cancels}
  {interceptors : List (Interceptor (Work (Cluster ω)))} {c c' : Cluster ω} {clock clock' : Clock}
  {context : Context} {scopes : Cancellation} {request : Request}

end Cluster
end RemoteCall
