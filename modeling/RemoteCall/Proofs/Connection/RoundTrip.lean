import RemoteCall.Proofs.Connection.Ready
import RemoteCall.Proofs.Work.Ends
import RemoteCall.Stub.Remote

/-! A call over a client that has room for it ends with what the peer answers.

The peer acts on the world around the client alone, so the traffic of the client stands still while
the peer is at work. -/
namespace RemoteCall
variable {ω : Type}

theorem Pool.State.freshTicket_not_mem (s : Pool.State) : s.freshTicket ∉ s.asked := by
  -- from any number on, the fold goes up and passes each ticket
  have hle (l : List Nat) (n : Nat) : n ≤ l.foldl (fun n t => max n (t + 1)) n ∧
      ∀ t ∈ l, t < l.foldl (fun n t => max n (t + 1)) n := by
    induction l generalizing n with
    | nil => exact ⟨Nat.le_refl n, nofun⟩
    | cons a rest ih =>
      obtain ⟨hn, ht⟩ := ih (max n (a + 1))
      refine ⟨(Nat.le_max_left n (a + 1)).trans hn, List.forall_mem_cons.mpr ⟨?_, ht⟩⟩
      exact (Nat.le_max_right n (a + 1)).trans hn
  intro hmem
  exact Nat.lt_irrefl _ ((hle s.asked 0).2 _ hmem)

/-- Work around a client changes its world alone. -/
theorem Work.run_around {α : Type} (w : Work ω α) (c : Clock) (s : Client ω) :
    w.around.run c s =
      ((w.run c s.world).1, (w.run c s.world).2.1, { s with world := (w.run c s.world).2.2 }) := by
  induction w generalizing c s with
  | done a => rfl
  | act f next ih => exact ih s.world c _
  | clock next ih => exact ih c c s
  | wait span next ih => exact ih (c.advance span) s
  | never => rfl
  | crash => rfl

theorem Work.ends_around {α : Type} {w : Work ω α} {c : Clock} {s : Client ω}
    {Q : α → Clock → Client ω → Prop}
    (h : w.Ends c s.world fun a c' world => Q a c' { s with world }) : w.around.Ends c s Q := by
  obtain ⟨a, c', world, hrun, ha⟩ := h
  refine ⟨a, c', { s with world }, ?_, ha⟩
  rw [run_around, hrun]

/-- The peer is reached whenever it is asked for, in time to connect. -/
structure Lines.Reaches {σ : Type} (l : Lines σ) (network : Network σ) (peer : Peer σ) : Prop where
  connects : ∀ c s, (l.connect network).Ends c s fun reached _ s' => reached = .ok peer ∧ s' = s
  answers : ∀ c s, (network l.address).Ends c s fun reached _ s' => reached = .ok peer ∧ s' = s

/-- What the peer does with the frame of a request brings the caller a response. -/
structure Handled.Brings (h : Handled) (frame : ByteArray) (r : Request) (response : Response) :
    Prop where
  serves : Serves frame h
  ends_eq : h.ends = false
  isFrame : Stream.IsFrame h.written
  size_le : h.written.size ≤ Stream.maxFrame
  accepted : r.accept h.written = .ok response

theorem Work.ends_get {σ α : Type} {k : σ → Work σ α} {c : Clock} {s : σ} {Q : α → Clock → σ → Prop}
    (h : (k s).Ends c s Q) : (get >>= k).Ends c s Q := h

namespace Lines
variable {σ : Type} {l : Lines σ} {network : Network σ} {t d n : Nat}
  {frame got : ByteArray} {c : Clock}
  {s : σ} {Q : Unit → Clock → σ → Prop}

theorem ends_dial_of_holding (hp : (l.traffic s).pool.phase? t = some (.holding d)) (h : Q () c s) :
    (l.dial network t).Ends c s Q := by
  unfold dial
  refine Work.ends_get ?_
  rw [hp]
  exact Work.ends_pure h

theorem ends_dial_of_dialing (hp : (l.traffic s).pool.phase? t = some (.dialing d))
    (h : (l.connect network).Ends c s fun outcome c' s' =>
      (l.moveAt (.dialed t (outcome.map fun _ => ()))).Ends c' s' Q) :
    (l.dial network t).Ends c s Q := by
  unfold dial
  refine Work.ends_get ?_
  rw [hp]
  exact Work.ends_bind h

theorem ends_exchange_of_writing (hx : (l.traffic s).stage? t = some (.writing d frame))
    (h : (l.moveAt (.write t frame.size)).Ends c s fun _ c' s' =>
      (l.exchange network t n).Ends c' s' Q) :
    (l.exchange network t (n + 1)).Ends c s Q := by
  unfold exchange
  refine Work.ends_get ?_
  dsimp only
  rw [hx]
  exact Work.ends_bind h

/-- There is nothing to read, so the peer handles what was sent. -/
theorem ends_exchange_of_sent (hx : (l.traffic s).stage? t = some (.reading d got))
    (hsent : ((l.traffic s).link d).sent = frame) (hunread : ((l.traffic s).link d).unread = .empty)
    (hended : ((l.traffic s).link d).ended = false) (hf : Stream.IsFrame frame)
    (hmax : frame.size ≤ Stream.maxFrame)
    (h : (l.handleNext network d frame).Ends c s fun _ c' s' =>
      (l.exchange network t n).Ends c' s' Q) :
    (l.exchange network t (n + 1)).Ends c s Q := by
  have hread := Stream.readFrame_self hf hmax
  have hnone : (((l.traffic s).link d).ended || !((l.traffic s).link d).unread.isEmpty) =
      false := by
    rw [hended, hunread]
    rfl
  have hstuck : ((l.traffic s).link d).isStuck = false := by
    rw [Link.isStuck, hended, hsent, hread]
    rfl
  have holdest : ((l.traffic s).link d).oldest? = some (frame, frame.size) := by
    rw [Link.oldest?, hended, hsent, hread]
    rfl
  unfold exchange
  refine Work.ends_get ?_
  dsimp only
  rw [hx]
  dsimp only
  rw [hnone, hstuck, holdest]
  exact Work.ends_bind h

theorem ends_exchange_of_unread (hx : (l.traffic s).stage? t = some (.reading d got))
    (hunread : ((l.traffic s).link d).unread ≠ .empty)
    (h : (l.moveAt (.read t ((l.traffic s).link d).unread.size)).Ends c s fun _ c' s' =>
      (l.exchange network t n).Ends c' s' Q) : (l.exchange network t (n + 1)).Ends c s Q := by
  have hempty : ((l.traffic s).link d).unread.isEmpty = false :=
    beq_false_of_ne fun hsize => hunread (ByteArray.size_eq_zero_iff.mp hsize)
  unfold exchange
  refine Work.ends_get ?_
  dsimp only
  rw [hx]
  dsimp only
  rw [hempty, Bool.not_false, Bool.or_true]
  exact Work.ends_bind h

theorem ends_exchange_of_ended {outcome : Result Response}
    (hx : (l.traffic s).stage? t = some (.ended outcome)) (h : Q () c s) :
    (l.exchange network t (n + 1)).Ends c s Q := by
  unfold exchange
  refine Work.ends_get ?_
  dsimp only
  rw [hx]
  exact Work.ends_pure h

end Lines

namespace Client
variable {client s : Client ω} {network : Network (Client ω)}
  {peer : ByteArray → Work ω Handled} {t d n : Nat}
  {r : Request} {frame : ByteArray} {c : Clock} {R : Response → Clock → ω → Prop}
  {Q : Unit → Clock → Client ω → Prop}

theorem ends_moveAt {x : Move}
    (h : ∀ n, Q () c { s with traffic := (s.traffic.step (.pass n)).step x }) :
    (client.lines.moveAt x).Ends c s Q := ⟨(), c, _, rfl, h _⟩

theorem ends_move {x : Move} (h : Q () c { s with traffic := s.traffic.step x }) :
    (client.lines.move x).Ends c s Q := ⟨(), c, _, rfl, h⟩

/-- The call has got a resting connection. -/
theorem ends_acquire (hs : s.traffic.Ready) (ht : t ∉ s.traffic.pool.asked)
    (hreaches : client.lines.Reaches network fun frame => (peer frame).around) :
    (client.lines.acquire network t r).Ends c s fun _ _ s' => ∃ d traffic, s' = { s with traffic } ∧
      traffic.Engaged t (.holding d) ⟨r, .asking⟩ ∧ (traffic.link d).Resting := by
  refine Work.ends_bind (ends_moveAt fun n => Work.ends_get ?_)
  obtain ⟨d, hengaged, hresting⟩ | ⟨d, hengaged⟩ := (hs.pass (n := n)).ask (t := t) (r := r) ht
  -- an idle connection, or a new one
  · dsimp only [Client.lines]
    rw [hengaged.phase?_eq]
    exact Lines.ends_dial_of_holding hengaged.phase?_eq ⟨d, _, rfl, hengaged, hresting⟩
  · dsimp only [Client.lines]
    rw [hengaged.phase?_eq]
    have hconnects := hreaches.connects c
    refine Lines.ends_dial_of_dialing hengaged.phase?_eq
      ((hconnects _).mono fun reached c' s' h => ?_)
    obtain ⟨rfl, rfl⟩ := h
    refine ends_moveAt fun n => ?_
    obtain ⟨hholding, hresting⟩ := (hengaged.pass (n := n)).dialed
    exact ⟨d, _, rfl, hholding, hresting⟩

theorem ends_handleNext (hreaches : client.lines.Reaches network fun frame => (peer frame).around)
    (h : ∀ c', c.LeadsTo c' → (peer frame).Ends c' s.world fun handled c'' world =>
      Q () c'' { s with traffic := s.traffic.step (.handle d frame handled), world }) :
    (client.lines.handleNext network d frame).Ends c s Q := by
  unfold Lines.handleNext
  refine Work.ends_bind ((hreaches.answers c s).leadsTo.mono fun reached c' s' hanswers => ?_)
  obtain ⟨hleads, rfl, rfl⟩ := hanswers
  refine Work.ends_bind (Work.ends_around ((h c' hleads).mono fun handled c'' world hq => ?_))
  exact ends_move hq

/-- The frame is written, the peer handles it, and the response is read: three rounds and one to see
that all is done. -/
theorem ends_exchange (hreaches : client.lines.Reaches network fun frame => (peer frame).around)
    (he : s.traffic.Engaged t (.holding d) ⟨r, .writing d frame⟩) (hl : (s.traffic.link d).Resting)
    (htwo : r.isOneway = false) (hf : Stream.IsFrame frame) (hmax : frame.size ≤ Stream.maxFrame)
    (hpeer : ∀ c', c.LeadsTo c' → (peer frame).Ends c' s.world fun h c'' world =>
      ∃ response, h.Brings frame r response ∧ R response c'' world) :
    (client.lines.exchange network t (n + 4)).Ends c s fun _ c' s' => ∃ response traffic world,
      s' = { s with traffic, world } ∧ traffic.Ready ∧
      traffic.stage? t = some (.ended (.ok response)) ∧ R response c' world := by
  -- the whole frame is written in the first round
  refine Lines.ends_exchange_of_writing he.stage?_eq (ends_moveAt fun k => ?_)
  obtain ⟨hreading, hsent, hunread, hended⟩ := (he.pass (n := k)).write hl htwo
  -- in the second one the peer is at work, and the traffic stands still
  refine Lines.ends_exchange_of_sent hreading.stage?_eq hsent hunread hended hf hmax ?_
  refine ends_handleNext hreaches fun c' hleads => (hpeer c' hleads).mono
    fun h c'' world hbrings => ?_
  obtain ⟨response, hbrings, hr⟩ := hbrings
  obtain ⟨hanswered, hsent', hunread', hended'⟩ :=
    hreading.handle hsent hunread hended hf hmax hbrings.serves
  have hne : h.written ≠ .empty := fun hempty => by
    have hsize := hbrings.isFrame.headSize_le_size
    rw [hempty] at hsize
    exact absurd hsize (by decide)
  -- in the third one all that was answered is read
  refine Lines.ends_exchange_of_unread hanswered.stage?_eq
    (fun hempty => hne (hunread'.symm.trans hempty))
    (ends_moveAt fun k => ?_)
  obtain ⟨hready, hx⟩ :=
    (hanswered.pass (n := k)).read hsent' hunread' (hended'.trans hbrings.ends_eq)
    hbrings.isFrame hbrings.size_le hbrings.accepted
  rw [← hunread'] at hready hx
  exact Lines.ends_exchange_of_ended hx ⟨response, _, world, rfl, hready, hx, hr⟩

/-- A call over ready traffic ends with the response of its peer, and leaves the traffic ready. -/
theorem ends_attempt (hs : s.traffic.Ready) (ht : t ∉ s.traffic.pool.asked)
    (hreaches : client.lines.Reaches network fun frame => (peer frame).around)
    (hencode : r.encode = .ok frame) (htwo : r.isOneway = false)
    (hmax : frame.size ≤ Stream.maxFrame)
    (hpeer : ∀ c', c.LeadsTo c' → (peer frame).Ends c' s.world fun h c'' world =>
      ∃ response, h.Brings frame r response ∧ R response c'' world) :
    (client.lines.attempt network t r).Ends c s fun outcome c' s' => ∃ response traffic world,
      outcome = .ok response ∧ s' = { s with traffic, world } ∧ traffic.Ready ∧
      R response c' world := by
  have hf : Stream.IsFrame frame := by
    obtain ⟨-, hh, hb, rfl⟩ := Request.encode_eq_ok.mp hencode
    exact Request.isFrame_bytes hh hb
  unfold Lines.attempt
  refine Work.ends_bind ((ends_acquire hs ht hreaches).leadsTo.mono fun _ c' s' hacquired => ?_)
  obtain ⟨hleads, d, traffic, rfl, hasking, hresting⟩ := hacquired
  refine Work.ends_bind (ends_moveAt fun n => Work.ends_get ?_)
  obtain ⟨hwriting, hlink⟩ := (hasking.pass (n := n)).proceed hencode
  have hresting' : (((traffic.step (.pass n)).step (.proceed t)).link d).Resting := hlink ▸ hresting
  -- a resting link has nothing left to be sent, so the rounds are those of the frame
  have hrounds : Lines.rounds ((traffic.step (.pass n)).step (.proceed t)) t = frame.size + 4 := by
    simp only [Lines.rounds, hwriting.stage?_eq, hresting'.sent_eq,
      ByteArray.size_empty, Nat.zero_add]
  have hexchange := ends_exchange
    (s := { s with traffic := (traffic.step (.pass n)).step (.proceed t) })
    (n := frame.size) hreaches hwriting hresting' htwo hf hmax fun c'' h =>
    hpeer c'' (hleads.trans h)
  rw [← hrounds] at hexchange
  refine Work.ends_bind (hexchange.mono fun _ c'' s'' hexchanged => Work.ends_get ?_)
  obtain ⟨response, traffic', world, rfl, hready, hstage, hr⟩ := hexchanged
  dsimp only [Client.lines]
  rw [hstage]
  exact Work.ends_pure ⟨response, traffic', world, rfl, rfl, hready, hr⟩

/-- A call that nothing bounds ends with what the peer answers, and leaves the client ready for the
next. -/
theorem ends_call {cancels : Cancels} (hs : s.traffic.Ready) (hcancels : cancels 0 = none)
    (hreaches : client.lines.Reaches network fun frame => (peer frame).around)
    (hr : r.withLengths = r) (hencode : r.encode = .ok frame) (htwo : r.isOneway = false)
    (hmax : frame.size ≤ Stream.maxFrame)
    (hpeer : ∀ c', c.LeadsTo c' → (peer frame).Ends c' s.world fun h c'' world =>
      ∃ response, h.Brings frame r response ∧ R response c'' world) :
    (client.lines.call network cancels {} r).Ends c s fun outcome c' s' => ∃ response traffic world,
      outcome = .ok response ∧ s' = { s with traffic, world } ∧ traffic.Ready ∧
      R response c' world := by
  have happly : ({} : Context).applyTo c r = some r := congrArg some hr
  unfold Lines.call
  refine Work.ends_clock ?_
  rw [happly]
  refine Work.ends_get (Work.ends_bind ?_)
  have hattempt := ends_attempt hs s.traffic.pool.freshTicket_not_mem hreaches
    hencode htwo hmax hpeer
  refine Work.ends_bound_of_none rfl hcancels (hattempt.mono fun outcome c' s' h => ?_)
  obtain ⟨response, traffic, world, rfl, hrest⟩ := h
  exact Work.ends_pure ⟨response, traffic, world, rfl, hrest⟩

end Client
end RemoteCall
