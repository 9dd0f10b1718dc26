import RemoteCall.Proofs.Connection.Turn

/-! What moves keep, however calls, peers and the pool take turns. -/
namespace RemoteCall

def Move.IsServed : Move → Prop
  | .handle _ frame h => Serves frame h
  | _ => True

namespace Traffic
variable {s s' : Traffic} {t u c : Nat} {r : Request} {x : Exchange} {y : Pool.Step} {m : Move}
  {outcome o : Result Response}

/-- A call that the pool does not know uses no connection. -/
theorem Sound.connection?_of_fresh (hs : s.Sound) (ht : t ∉ s.pool.asked)
    (hx : s.exchanges.get? t = some x) : x.stage.connection? = none := by
  cases hc : x.stage.connection? with
  | none => rfl
  | some c =>
    have hp := hs.holds t x c hx hc
    exact absurd (hs.balanced.asked_of_mem t (Pool.State.mem_tickets.mpr (by simp [hp]))) ht

theorem sound_ask (hs : s.Sound) : (s.ask t r).Sound := by
  unfold ask
  split
  · exact hs
  · rename_i ht
    have hput : (s.put t ⟨r, .asking⟩).Sound :=
      sound_put hs (fun y => hs.connection?_of_fresh ht) rfl
    refine sound_act hput (fun y hy => ?_) (.inl rfl)
    rw [get?_put, if_pos rfl] at hy
    cases hy
    rfl

theorem sound_dialed (hs : s.Sound) (outcome : Result Unit) : (s.dialed t outcome).Sound := by
  unfold dialed
  split
  · rename_i c hp
    -- nobody else has to do with a connection that is being opened
    have hset : (s.setLink c {}).Sound :=
      sound_setLink hs (hs.owned.not_usable_of_dialing hs.balanced hp)
    refine sound_stepPool hset (by simp) fun u d hy hu => ?_
    cases hy
    cases hp.symm.trans hu
    rw [link_setLink, if_pos rfl]
    exact Link.clean_new
  · rename_i hne
    refine sound_stepPool hs (by simp) fun u d hy hu => ?_
    cases hy
    exact absurd rfl (hne d hu)

/-- Whatever callers and serving peers do leaves the traffic sound. -/
theorem sound_step (hs : s.Sound) (hm : m.IsServed) : (s.step m).Sound := by
  cases m with
  | ask t r => exact sound_ask hs
  | receive t => exact sound_stepPool hs (by simp) (by simp)
  | expire t => exact sound_stepPool hs (by simp) (by simp)
  | dialed t outcome => exact sound_dialed hs outcome
  | proceed t => exact sound_turn hs (turn_proceed hs)
  | write t n => exact sound_turn hs (turn_write hs)
  | read t n => exact sound_turn hs (turn_read hs)
  | fail t fault text => exact sound_turn hs (turn_fail hs (fault.isConnectionFatal_toError text))
  | cut t e => exact sound_turn hs (turn_cut hs)
  | handle c frame h =>
    exact sound_onLink hs (fun l left hc => Link.clean_handle hc hm)
      (fun l r rest hw => Link.writing_handle hw hm)
      (fun l w got hw hr => Link.reading_handle hr hw hm)
  | hangUp c n =>
    exact sound_onLink hs (fun l left hc => Link.clean_hangUp hc)
      (fun l r rest hw => Link.writing_hangUp hw) (fun l w got hw hr => Link.reading_hangUp hr)
  | close => exact sound_stepPool hs (by simp) (by simp)
  | pass span => exact sound_stepPool hs (by simp) (by simp)

theorem sound_run (hs : s.Sound) {moves : List Move} (hm : ∀ m ∈ moves, m.IsServed) :
    (s.run moves).Sound := by
  induction moves generalizing s with
  | nil => exact hs
  | cons m rest ih =>
    have hstep := sound_step hs (hm m List.mem_cons_self)
    exact ih hstep fun m' hm' => hm m' (List.mem_cons_of_mem m hm')

/-- A new pool has no traffic. -/
theorem sound_ofConfig {config : PoolConfig} (h : ofConfig config = .ok s) : s.Sound := by
  unfold ofConfig at h
  obtain ⟨pool, hp, hs⟩ := bind_eq_ok.mp h
  cases hs
  have hnone (c : Nat) : ¬ pool.Usable c := by
    unfold Pool.State.ofConfig at hp
    split at hp
    · cases hp
    · cases hp
      intro hu
      cases hu with
      | idle i hi => cases hi
      | handed t hp => cases hp
      | held t hp => cases hp
  refine ⟨Pool.State.balanced_ofConfig hp, Pool.State.owned_ofConfig hp, ?_, ?_, ?_⟩
  · intro t x c hx
    cases hx
  · intro t x c hx
    cases hx
  · intro c hu
    exact absurd hu (hnone c)

theorem exchanges_onLink {f : Link → Link} : (s.onLink c f).exchanges = s.exchanges := by
  unfold onLink
  split <;> rfl

/-- A call that is not over ends in one of these ways, whoever moves. -/
theorem ending_step (hs : s.Sound) (hx : s.exchanges.get? t = some x)
    (hne : ∀ o, x.stage ≠ .ended o) (ho : (s.step m).exchanges.get? t = some ⟨r, .ended outcome⟩) :
    r = x.request ∧ Ending s (s.step m) t r x.stage outcome := by
  -- another call's turn changes nothing for this one
  have hturn {u : Nat} (ht : s.Turn u (s.step m)) :
      r = x.request ∧ Ending s (s.step m) t r x.stage outcome := by
    by_cases htu : t = u
    · subst htu
      exact ending_turn hs ht hx hne ho
    · rw [exchanges_turn ht htu, hx] at ho
      cases ho
      exact absurd rfl (hne outcome)
  have hsame (he : (s.step m).exchanges.get? t = s.exchanges.get? t) :
      r = x.request ∧ Ending s (s.step m) t r x.stage outcome := by
    rw [he, hx] at ho
    cases ho
    exact absurd rfl (hne outcome)
  cases m with
  | ask u r' =>
    change (s.ask u r').exchanges.get? t = _ at ho
    unfold ask at ho
    split at ho
    · rw [hx] at ho
      cases ho
      exact absurd rfl (hne outcome)
    · change (s.put u _).exchanges.get? t = _ at ho
      rw [get?_put] at ho
      split at ho
      · cases ho
      · rw [hx] at ho
        cases ho
        exact absurd rfl (hne outcome)
  | dialed u o =>
    refine hsame ?_
    change (s.dialed u o).exchanges.get? t = _
    unfold dialed
    split <;> rfl
  | proceed u => exact hturn (turn_proceed hs)
  | write u n => exact hturn (turn_write hs)
  | read u n => exact hturn (turn_read hs)
  | fail u fault text => exact hturn (turn_fail hs (fault.isConnectionFatal_toError text))
  | cut u e => exact hturn (turn_cut hs)
  | handle c frame h => exact hsame (congrArg (·.get? t) exchanges_onLink)
  | hangUp c n => exact hsame (congrArg (·.get? t) exchanges_onLink)
  | receive u => exact hsame rfl
  | expire u => exact hsame rfl
  | close => exact hsame rfl
  | pass span => exact hsame rfl

theorem pool_finish : ∃ steps, (s.finish t r o).pool = s.pool.run steps := by
  cases o with
  | ok response => exact ⟨[.release t], rfl⟩
  | error e =>
    rw [finish]
    split
    · exact ⟨[.abandon t], rfl⟩
    · exact ⟨[.release t], rfl⟩

theorem pool_onLink (s : Traffic) (c : Nat) (f : Link → Link) : (s.onLink c f).pool = s.pool := by
  unfold onLink
  split
  · rfl
  · rfl

theorem pool_proceed (s : Traffic) (t : Nat) : ∃ steps, (s.proceed t).pool = s.pool.run steps := by
  unfold proceed
  split
  · split
    · split
      · exact ⟨[], rfl⟩
      · exact pool_finish
    · exact ⟨[], rfl⟩
    · exact ⟨[], rfl⟩
  · exact ⟨[], rfl⟩

theorem pool_write (s : Traffic) (t n : Nat) : ∃ steps, (s.write t n).pool = s.pool.run steps := by
  unfold write
  split
  · dsimp only
    split
    · split
      · exact pool_finish
      · exact ⟨[], rfl⟩
    · exact ⟨[], rfl⟩
  · exact ⟨[], rfl⟩

theorem pool_read (s : Traffic) (t n : Nat) : ∃ steps, (s.read t n).pool = s.pool.run steps := by
  unfold read
  split
  · dsimp only
    split
    · exact pool_finish
    · split
      · exact pool_finish
      · exact ⟨[], rfl⟩
    · exact pool_finish
  · exact ⟨[], rfl⟩

/-- What moves do to the pool is what the pool does by itself. -/
theorem pool_step (s : Traffic) (m : Move) : ∃ steps, (s.step m).pool = s.pool.run steps := by
  cases m with
  | ask t r =>
    change ∃ steps, (s.ask t r).pool = _
    unfold ask
    split
    · exact ⟨[], rfl⟩
    · exact ⟨[.ask t], rfl⟩
  | receive t => exact ⟨[.receive t], rfl⟩
  | expire t => exact ⟨[.expire t], rfl⟩
  | dialed t outcome =>
    change ∃ steps, (s.dialed t outcome).pool = _
    unfold dialed
    split
    · exact ⟨[.dialed t _], rfl⟩
    · exact ⟨[.dialed t _], rfl⟩
  | proceed t => exact pool_proceed s t
  | write t n => exact pool_write s t n
  | read t n => exact pool_read s t n
  | fail t fault text =>
    change ∃ steps, (s.fail t _).pool = _
    unfold fail
    split
    · exact pool_finish
    · exact pool_finish
    · exact ⟨[], rfl⟩
  | cut t e =>
    change ∃ steps, (s.cut t e).pool = _
    unfold cut
    split
    · exact ⟨[], rfl⟩
    · exact ⟨[], rfl⟩
    · exact ⟨[.abandon t], rfl⟩
  | handle c frame h => exact ⟨[], pool_onLink s c _⟩
  | hangUp c n => exact ⟨[], pool_onLink s c _⟩
  | close => exact ⟨[.close], rfl⟩
  | pass span => exact ⟨[.pass span], rfl⟩

/-- What a run does to the pool is what the pool does by itself. -/
theorem pool_run (s : Traffic) (moves : List Move) :
    ∃ steps, (s.run moves).pool = s.pool.run steps := by
  induction moves generalizing s with
  | nil => exact ⟨[], rfl⟩
  | cons m rest ih =>
    obtain ⟨first, hfirst⟩ := pool_step s m
    obtain ⟨later, hlater⟩ := ih (s.step m)
    refine ⟨first ++ later, hlater.trans ?_⟩
    rw [hfirst, Pool.State.run, Pool.State.run, Pool.State.run, List.foldl_append]

end Traffic
end RemoteCall
