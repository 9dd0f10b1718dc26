import RemoteCall.Proofs.Connection.Traffic

/-! What a call does when it is its turn: it goes on over its connection, or it ends.

A call that ends without an answer while it uses a connection closes it, because nobody could tell
what would still come over it. -/
namespace RemoteCall

/-- How a call that stood at a stage came to its outcome, between two states. -/
inductive Ending (s s' : Traffic) (t : Nat) (r : Request) : Stage → Result Response → Prop
  /-- The response is what the peer wrote for the frame of this very call. -/
  | answered (c : Nat) (got : ByteArray) (h : Handled) (response : Response)
    (htwo : r.isOneway = false) (ha : ⟨t, r.bytes, h⟩ ∈ (s.link c).answers) (hh : Serves r.bytes h)
    (hd : Response.decode h.written = .ok response)
    (hid : response.codes.messageId = r.codes.messageId) :
    Ending s s' t r (.reading c got) (.ok response)
  /-- The frame is written to its end, and no response will come. -/
  | sent (c : Nat) (rest : ByteArray) (hone : r.isOneway = true) :
    Ending s s' t r (.writing c rest) (.ok (.replyTo r))
  /-- The connection is closed. -/
  | broken (stage : Stage) (c : Nat) (e : Error) (hc : stage.connection? = some c)
    (hd : c ∈ s'.pool.dropped) : Ending s s' t r stage (.error e)
  /-- Nothing was written. -/
  | unwritten (e : Error) (hl : ∀ c, s'.link c = s.link c) : Ending s s' t r .asking (.error e)

/-- A response is accepted if it can be read and bears the number of the request. -/
theorem Request.accept_eq_ok {r : Request} {frame : ByteArray} {response : Response} :
    r.accept frame = .ok response ↔
      Response.decode frame = .ok response ∧ response.codes.messageId = r.codes.messageId := by
  rw [accept, bind_eq_ok]
  constructor
  · rintro ⟨response', hd, hm⟩
    split at hm
    · rename_i hid
      cases hm
      exact ⟨hd, beq_iff_eq.mp hid⟩
    · cases hm
  · rintro ⟨hd, hid⟩
    exact ⟨response, hd, by rw [if_pos (beq_iff_eq.mpr hid)]; rfl⟩

theorem Malformed.isConnectionFatal_toError (m : Malformed) :
    m.toError.isConnectionFatal = true := by
  cases m <;> rfl

theorem StreamFault.isConnectionFatal_toError (fault : StreamFault) (text : String) :
    (fault.toError text).isConnectionFatal = true := by
  cases fault <;> rfl

namespace Traffic
variable {s s' s₁ : Traffic} {t u c d n : Nat} {r : Request}
  {rest got frame : ByteArray} {x : Exchange}
  {y : Pool.Step} {e : Error} {outcome : Result Response}

/-- What a call does, by what becomes of its connection. -/
inductive Turn (s : Traffic) (t : Nat) : Traffic → Prop
  | rests : Turn s t s
  | goesOn (s' : Traffic) (c : Nat) (x x' : Exchange) (hx : s.exchanges.get? t = some x)
    (hp : s.pool.phase? t = some (.holding c)) (he : Edits s s' t c)
    (hx' : s'.exchanges.get? t = some x') (hc : x'.stage.connection? = some c)
    (hl : InUse (s'.link c) t x') : Turn s t s'
  | releases (s₁ : Traffic) (c : Nat) (x : Exchange) (outcome : Result Response)
    (hx : s.exchanges.get? t = some x) (hp : s.pool.phase? t = some (.holding c))
    (he : Edits s (s₁.put t ⟨x.request, .ended outcome⟩) t c) (hl : (s₁.link c).Clean .empty)
    (hend : ∀ s', (∀ d, s'.link d = s₁.link d) → Ending s s' t x.request x.stage outcome) :
    Turn s t ((s₁.put t ⟨x.request, .ended outcome⟩).stepPool (.release t))
  | abandons (s₁ : Traffic) (c : Nat) (x : Exchange) (e : Error)
    (hx : s.exchanges.get? t = some x) (hp : s.pool.phase? t = some (.holding c))
    (hc : x.stage.connection? = some c)
    (he : Edits s (s₁.put t ⟨x.request, .ended (.error e)⟩) t c) :
    Turn s t ((s₁.put t ⟨x.request, .ended (.error e)⟩).stepPool (.abandon t))
  | refused (r : Request) (e : Error) (hx : s.exchanges.get? t = some ⟨r, .asking⟩) :
    Turn s t (s.put t ⟨r, .ended (.error e)⟩)
  | givesUp (r : Request) (e : Error) (hx : s.exchanges.get? t = some ⟨r, .asking⟩) :
    Turn s t ((s.put t ⟨r, .ended (.error e)⟩).stepPool (.abandon t))

theorem connection?_ended (hx : (s.put t ⟨r, .ended outcome⟩).exchanges.get? t = some x) :
    x.stage.connection? = none := by
  rw [get?_put, if_pos rfl] at hx
  cases hx
  rfl

theorem finish_ok {response : Response} :
    s.finish t r (.ok response) = (s.put t ⟨r, .ended (.ok response)⟩).stepPool (.release t) := rfl

theorem finish_fatal (h : e.isConnectionFatal = true) :
    s.finish t r (.error e) = (s.put t ⟨r, .ended (.error e)⟩).stepPool (.abandon t) := by
  rw [finish]
  simp [h]

/-- A caller that goes on takes its turn. -/
theorem turn_proceed (hs : s.Sound) : s.Turn t (s.proceed t) := by
  unfold proceed
  split
  · rename_i r hx
    split
    · rename_i a c hp
      -- whoever used `c` would hold it, but its holder has not begun
      have hn (u : Nat) (y : Exchange) (hy : s.exchanges.get? u = some y) :
          y.stage.connection? ≠ some c := by
        intro hc
        obtain rfl := hs.eq_of_holding (hs.holds u y c hy hc) hp
        cases hx.symm.trans hy
        cases hc
      have hclean := hs.clean c (.held t hp) hn
      split
      · rename_i bytes hb
        obtain ⟨rfl, hr⟩ := Request.sendable_of_encode hb
        exact .goesOn _ c _ ⟨r, .writing c r.bytes⟩ hx hp edits_put (by simp) rfl
          (.writing r c r.bytes (Link.writing_of_clean hclean hr))
      -- what cannot be encoded is no reason to close a connection on which nothing was written
      · rename_i e he
        have hk : e.isConnectionFatal = false := by
          rw [Error.isConnectionFatal, Request.kind_of_encode he]
          rfl
        have hf : s.finish t r (.error e) = (s.put t ⟨r, .ended (.error e)⟩).stepPool
            (.release t) := by
          rw [finish]
          simp [hk]
        rw [hf]
        exact .releases s c ⟨r, .asking⟩ (.error e) hx hp edits_put hclean
          fun s' hl => .unwritten e hl
    · exact .refused r _ hx
    · exact .rests
  · exact .rests

/-- So does one that writes. -/
theorem turn_write (hs : s.Sound) : s.Turn t (s.write t n) := by
  unfold write
  split
  · rename_i r c rest hx
    have hp := hs.holds t _ c hx rfl
    have hin := hs.inUse t _ c hx rfl
    cases hin with
    | writing r c rest hw =>
      dsimp only
      split
      · rename_i hn
        have hall : rest.extract 0 n = rest := by
          rw [← Nat.max_eq_left hn]
          exact ByteArray.extract_zero_max_size
        rw [hall]
        split
        · rename_i hone
          rw [finish_ok]
          refine .releases _ c _ _ hx hp edits_setLink ?_ fun s' _ => .sent c rest hone
          rw [link_setLink, if_pos rfl]
          exact Link.clean_sign hw hone t
        · rename_i hone
          refine .goesOn _ c _ ⟨r, .reading c .empty⟩ hx hp edits_setLink (by simp) rfl ?_
          refine .reading r c .empty hw.sendable (by simpa using hone) ?_
          change ((s.setLink c _).link c).Reading _ _
          rw [link_setLink, if_pos rfl]
          exact Link.reading_sign hw t
      · rename_i hn
        refine .goesOn _ c _ ⟨r, .writing c (rest.extract n rest.size)⟩ hx hp
          edits_setLink (by simp) rfl ?_
        refine .writing r c _ ?_
        change ((s.setLink c _).link c).Writing _ _
        rw [link_setLink, if_pos rfl]
        exact Link.writing_write hw (Nat.lt_of_not_le hn)
  · exact .rests

/-- So does one that reads, whatever it reads. -/
theorem turn_read (hs : s.Sound) : s.Turn t (s.read t n) := by
  unfold read
  split
  · rename_i r c got hx
    have hp := hs.holds t _ c hx rfl
    have hin := hs.inUse t _ c hx rfl
    cases hin with
    | reading r c got hr htwo hg =>
      have hread := Link.reading_read hg n
      dsimp only
      split
      · rename_i frame next hf
        obtain ⟨-, hclean, h, response, ha, hh, hd, hacc⟩ := Link.accept_of_reading hread hr htwo hf
        rw [hacc, finish_ok]
        refine .releases _ c _ _ hx hp edits_setLink ?_ fun s' _ => ?_
        · rw [link_setLink, if_pos rfl]
          exact hclean
        · exact .answered c got h response htwo ha hh hd (Request.accept_eq_ok.mp hacc).2
      · split
        · rw [finish_fatal (Malformed.isConnectionFatal_toError _)]
          exact .abandons s c _ _ hx hp rfl edits_put
        · refine .goesOn _ c _ ⟨r, .reading c (got ++ (s.link c).unread.extract 0 n)⟩ hx hp
            edits_setLink (by simp) rfl ?_
          refine .reading r c _ hr htwo ?_
          change ((s.setLink c _).link c).Reading _ _
          rw [link_setLink, if_pos rfl]
          exact hread
      · rw [finish_fatal (Malformed.isConnectionFatal_toError _)]
        exact .abandons s c _ _ hx hp rfl edits_put
  · exact .rests

theorem turn_fail (hs : s.Sound) (he : e.isConnectionFatal = true) : s.Turn t (s.fail t e) := by
  unfold fail
  split
  · rename_i r c rest hx
    rw [finish_fatal he]
    exact .abandons s c _ e hx (hs.holds t _ c hx rfl) rfl edits_put
  · rename_i r c got hx
    rw [finish_fatal he]
    exact .abandons s c _ e hx (hs.holds t _ c hx rfl) rfl edits_put
  · exact .rests

theorem turn_cut (hs : s.Sound) : s.Turn t (s.cut t e) := by
  unfold cut
  split
  · exact .rests
  · exact .rests
  · rename_i r stage hopen hx
    cases stage with
    | asking => exact .givesUp r e hx
    | writing c rest => exact .abandons s c _ e hx (hs.holds t _ c hx rfl) rfl edits_put
    | reading c got => exact .abandons s c _ e hx (hs.holds t _ c hx rfl) rfl edits_put
    | ended outcome => exact absurd rfl (hopen outcome)

/-- A call that uses no connection may come to another stage without one. -/
theorem sound_put (hs : s.Sound)
    (hn : ∀ y, s.exchanges.get? t = some y → y.stage.connection? = none)
    (hx : x.stage.connection? = none) : (s.put t x).Sound := by
  have hother {u : Nat} {y : Exchange} {d : Nat} (hy : (s.put t x).exchanges.get? u = some y)
      (hd : y.stage.connection? = some d) : s.exchanges.get? u = some y := by
    rw [get?_put] at hy
    split at hy
    · cases hy
      rw [hx] at hd
      cases hd
    · exact hy
  refine ⟨hs.balanced, hs.owned, fun u y d hy hd => hs.holds u y d (hother hy hd) hd,
    fun u y d hy hd => hs.inUse u y d (hother hy hd) hd, fun d hu hfree => hs.clean d hu ?_⟩
  intro u y hy hd
  by_cases hut : u = t
  · rw [hn y (hut ▸ hy)] at hd
    cases hd
  · exact hfree u y (by rw [get?_put, if_neg hut, hy]) hd

/-- A call that uses no connection does what it likes in the pool. -/
theorem sound_act (hs : s.Sound)
    (hn : ∀ y, s.exchanges.get? t = some y → y.stage.connection? = none)
    (ha : y = .ask t ∨ y = .release t ∨ y = .abandon t) : (s.stepPool y).Sound := by
  refine sound_stepPool hs (fun u z d hz hd => ?_) fun u d hy hp => ?_
  · have hut : t ≠ u := by
      rintro rfl
      rw [hn z hz] at hd
      cases hd
    rcases ha with rfl | rfl | rfl
    · simp
    · simpa using hut
    · simpa using hut
  · rcases ha with rfl | rfl | rfl <;> cases hy

/-- Every turn of a caller leaves the traffic sound. -/
theorem sound_turn (hs : s.Sound) (ht : s.Turn t s') : s'.Sound := by
  cases ht with
  | rests => exact hs
  | goesOn s' c x x' hx hp he hx' hc hl => exact sound_edit hs he hp hx' (.inl ⟨hc, hl⟩)
  | releases s₁ c x outcome hx hp he hl hend =>
    have hput := sound_edit hs he hp (get?_put.trans (if_pos rfl)) (.inr ⟨rfl, hl⟩)
    exact sound_act hput (fun y hy => connection?_ended hy) (.inr (.inl rfl))
  | abandons s₁ c x e hx hp hc he =>
    exact sound_abandon hs he hp fun y hy => connection?_ended hy
  | refused r e hx =>
    refine sound_put hs (fun y hy => ?_) rfl
    cases hx.symm.trans hy
    rfl
  | givesUp r e hx =>
    have hput : (s.put t ⟨r, .ended (.error e)⟩).Sound := by
      refine sound_put hs (fun y hy => ?_) rfl
      cases hx.symm.trans hy
      rfl
    exact sound_act hput (fun y hy => connection?_ended hy) (.inr (.inr rfl))

/-- A turn changes no other call. -/
theorem exchanges_turn (ht : s.Turn t s') (hu : u ≠ t) :
    s'.exchanges.get? u = s.exchanges.get? u := by
  have hput {s₁ : Traffic} {x : Exchange} :
      (s₁.put t x).exchanges.get? u = s₁.exchanges.get? u := by
    rw [get?_put, if_neg hu]
  cases ht with
  | rests => rfl
  | goesOn s' c x x' hx hp he hx' hc hl => exact he.exchanges_eq u hu
  | releases s₁ c x outcome hx hp he hl hend => exact he.exchanges_eq u hu
  | abandons s₁ c x e hx hp hc he => exact he.exchanges_eq u hu
  | refused r e hx => exact hput
  | givesUp r e hx => exact hput

/-- A call that was not over ends in one of these ways. -/
theorem ending_turn (hs : s.Sound) (ht : s.Turn t s') (hx : s.exchanges.get? t = some x)
    (hne : ∀ o, x.stage ≠ .ended o) (ho : s'.exchanges.get? t = some ⟨r, .ended outcome⟩) :
    r = x.request ∧ Ending s s' t r x.stage outcome := by
  have hput {s₁ : Traffic} {x : Exchange} : (s₁.put t x).exchanges.get? t = some x := by simp
  cases ht with
  | rests =>
    cases hx.symm.trans ho
    exact absurd rfl (hne outcome)
  | goesOn s' c x₀ x' hx₀ hp he hx' hc hl =>
    cases hx'.symm.trans ho
    cases hc
  | releases s₁ c x₀ outcome' hx₀ hp he hl hend =>
    cases hx₀.symm.trans hx
    cases hput.symm.trans ho
    exact ⟨rfl, hend _ fun d => rfl⟩
  | abandons s₁ c x₀ e hx₀ hp hc he =>
    cases hx₀.symm.trans hx
    cases hput.symm.trans ho
    refine ⟨rfl, .broken _ c e hc ?_⟩
    rw [stepPool, he.pool_eq]
    exact (Pool.State.abandon_holding hs.balanced hs.owned hp).1
  | refused r₀ e hx₀ =>
    cases hx₀.symm.trans hx
    cases hput.symm.trans ho
    exact ⟨rfl, .unwritten e fun _ => rfl⟩
  | givesUp r₀ e hx₀ =>
    cases hx₀.symm.trans hx
    cases hput.symm.trans ho
    exact ⟨rfl, .unwritten e fun _ => rfl⟩

end Traffic
end RemoteCall
