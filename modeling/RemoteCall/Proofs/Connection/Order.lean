import RemoteCall.Proofs.Connection.Moves

/-! Calls over pooled connections never get in each other's way.

A connection comes to a call without a byte on its way, and leaves it so or is closed: what a call
reads is the response to its own frame. -/
namespace RemoteCall.Traffic
variable {s : Traffic} {c : Nat} {moves : List Move}

/-- Nothing is on its way over the connections that calls come by, calls end in the ways of
`Ending`, whatever move it takes, and no response that is read is one to another request. -/
structure Orderly (s : Traffic) : Prop where
  idle : ∀ i ∈ s.pool.idle, (s.link i.connection).Quiescent
  handed : ∀ t c, s.pool.phase? t = some (.handed (.connection c)) → (s.link c).Quiescent
  asking : ∀ t r c, s.exchanges.get? t = some ⟨r, .asking⟩ → s.pool.phase? t = some (.holding c) →
    (s.link c).Quiescent
  ends : ∀ m t x r outcome, s.exchanges.get? t = some x → (∀ o, x.stage ≠ .ended o) →
    (s.step m).exchanges.get? t = some ⟨r, .ended outcome⟩ →
    r = x.request ∧ Ending s (s.step m) t r x.stage outcome
  closed : ∀ c ∈ s.pool.dropped, ∀ more : List Move, ¬ (s.run more).pool.Usable c
  matched : ∀ t r c got n frame next, s.exchanges.get? t = some ⟨r, .reading c got⟩ →
    Stream.readFrame (got ++ (s.link c).unread.extract 0 n) 0 = .ok (frame, next) →
    ∃ response, Response.decode frame = .ok response ∧ response.codes.messageId = r.codes.messageId

/-- Nothing is on its way over a connection that can be used again. -/
theorem Sound.quiescent (hs : s.Sound) (hu : s.pool.Usable c)
    (hn : ∀ t x, s.exchanges.get? t = some x → s.pool.phase? t = some (.holding c) →
      x.stage.connection? ≠ some c) : (s.link c).Quiescent :=
  (hs.clean c hu fun t x hx hc => hn t x hx (hs.holds t x c hx hc) hc).quiescent

/-- A response that is read bears the number of the request that it was read for. -/
theorem Sound.matched {t n next : Nat} {r : Request} {got frame : ByteArray} (hs : s.Sound)
    (hx : s.exchanges.get? t = some ⟨r, .reading c got⟩)
    (hf : Stream.readFrame (got ++ (s.link c).unread.extract 0 n) 0 = .ok (frame, next)) :
    ∃ response, Response.decode frame = .ok response ∧
    response.codes.messageId = r.codes.messageId := by
  have hin := hs.inUse t _ c hx rfl
  cases hin with
  | reading r c got hr htwo hg =>
    obtain ⟨-, -, h, response, -, -, -, hacc⟩ :=
      Link.accept_of_reading (Link.reading_read hg n) hr htwo hf
    exact ⟨response, Request.accept_eq_ok.mp hacc⟩

/-- A connection that was closed is not used again, whoever does what. -/
theorem Sound.not_usable (hs : s.Sound) (hc : c ∈ s.pool.dropped) (more : List Move) :
    ¬ (s.run more).pool.Usable c := by
  obtain ⟨steps, hsteps⟩ := pool_run s more
  rw [hsteps]
  have hframe := Pool.State.frame_run hs.balanced steps
  exact (Pool.State.owned_run hs.balanced hs.owned steps).not_usable (hframe.dropped hc)

/-- What every call can rely on follows from sound traffic. -/
theorem Sound.orderly (hs : s.Sound) : s.Orderly := by
  refine ⟨fun i hi => ?_, fun t c hp => ?_, fun t r c hx hp => ?_, ?_, fun c hc more => ?_, ?_⟩
  · refine hs.quiescent (.idle i hi rfl) fun t x hx hp => ?_
    exact absurd rfl (hs.owned.not_idle_of_holding hs.balanced hp hi)
  · refine hs.quiescent (.handed t hp) fun u x hx hq => ?_
    obtain rfl := hs.owned.eq_of_mem hs.balanced.tickets_nodup hp hq (List.mem_singleton_self c)
      (List.mem_singleton_self c)
    cases hp.symm.trans hq
  -- a call that has yet to write is the only holder, and not in the midst of using it
  · refine hs.quiescent (.held t hp) fun u x hy hq => ?_
    obtain rfl := hs.eq_of_holding hp hq
    cases hx.symm.trans hy
    exact nofun
  · exact fun m t x r outcome hx hne ho => ending_step hs hx hne ho
  · exact hs.not_usable hc more
  · exact fun t r c got n frame next hx hf => hs.matched hx hf

/-- Whichever calls are made, over whichever connections, and however their moves and those of their
peers mix: connections are quiet when a call gets them; a call that ends after its first byte and
before its response has been read closes its connection; an error leaves a connection open only if
the call has not written; and no call reads the response to another. -/
theorem calls_orderly {config : PoolConfig} {s₀ : Traffic} (h : ofConfig config = .ok s₀)
    (hm : ∀ m ∈ moves, m.IsServed) : (s₀.run moves).Orderly := by
  have hs := sound_run (sound_ofConfig h) hm
  exact hs.orderly

/-- A call may write behind the frame of a one-way call that the peer has not handled yet. -/
theorem calls_orderly_after_oneway :
    let tell := Request.withMetadata {} onewayKey "true"
    let fetch := Request.withMessageId {} 7
    let moves := [.ask 1 tell, .dialed 1 (.ok ()), .proceed 1, .write 1 99,
      .ask 2 fetch, .proceed 2,
      .write 2 99, .handle 1 tell.bytes (.reply tell.withLengths (.replyTo tell)),
      .handle 1 fetch.bytes (.reply fetch.withLengths (.replyTo fetch)), .read 2 99]
    let s := run { pool := { config := { maxOpen := 1 } } } moves
    (∀ m ∈ moves, m.IsServed) ∧ s.Orderly ∧ (s.link 1).answers.length = 2 ∧
      s.pool.idle.map (·.connection) = [1] := by
  have htell : (Request.withMetadata {} onewayKey "true").Sendable := by
    unfold Request.Sendable
    decide +kernel
  have hfetch : (Request.withMessageId {} 7).Sendable := by
    unfold Request.Sendable
    decide +kernel
  intro tell fetch moves s
  have hm : ∀ m ∈ moves, m.IsServed := by
    simp only [moves, List.mem_cons, List.not_mem_nil, or_false, forall_eq_or_imp, forall_eq,
      Move.IsServed, true_and, and_true]
    exact ⟨.replies _ _ htell.decode rfl, .replies _ _ hfetch.decode rfl⟩
  have hs : s.Orderly :=
    @calls_orderly moves { maxOpen := 1 } { pool := { config := { maxOpen := 1 } } } rfl hm
  exact ⟨hm, hs, by decide +kernel, by decide +kernel⟩

end RemoteCall.Traffic
