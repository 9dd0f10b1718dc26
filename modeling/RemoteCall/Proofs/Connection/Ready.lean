import RemoteCall.Proofs.Connection.Moves

/-! A call over traffic that has room for it: it gets a connection at once, writes, reads its
response and leaves room for the next call.

Other calls may have connections of their own meanwhile; none of them stands in line. -/
namespace RemoteCall

/-- Nothing is on its way over the link, and it has not ended. -/
structure Link.Resting (l : Link) : Prop where
  sent_eq : l.sent = .empty
  unread_eq : l.unread = .empty
  ended_eq : l.ended = false

theorem Link.resting_new : ({} : Link).Resting := ⟨rfl, rfl, rfl⟩

namespace Pool.State
variable {s : Pool.State} {t c : Nat}

def HasRoom (s : Pool.State) : Prop := s.idle ≠ [] ∨ s.admitted < s.config.maxOpen.toNat

/-- With room for a call, a caller has a connection at once, or leave to open one. -/
theorem letIn_of_hasRoom (hb : s.Balanced 0) (ho : s.closed = false) (hw : s.waiters = [])
    (hr : s.HasRoom) :
    (s.letIn t).closed = false ∧ (s.letIn t).waiters = [] ∧ (∀ i ∈ (s.letIn t).idle, i ∈ s.idle) ∧
      ((∃ i ∈ s.idle, (s.letIn t).phase? t = some (.holding i.connection)) ∨
        ∃ c, (s.letIn t).phase? t = some (.dialing c)) := by
  have hmem : ∀ i ∈ s.swept.idle, i ∈ s.idle :=
    fun i hi => (List.dropWhile_sublist s.isExpired).mem hi
  -- whatever is swept away makes room
  have hroom (hi : s.swept.idle = []) : s.swept.admitted < s.config.maxOpen.toNat := by
    have hexpired : s.idle.takeWhile s.isExpired = s.idle := by
      have happend := List.takeWhile_append_dropWhile (p := s.isExpired) (l := s.idle)
      rwa [show s.idle.dropWhile s.isExpired = [] from hi, List.append_nil] at happend
    have hadmitted : s.swept.admitted = s.admitted - s.idle.length := by
      change s.admitted - (s.idle.takeWhile s.isExpired).length = _
      rw [hexpired]
    have heq := hb.admitted_eq
    have hle := hb.admitted_le
    obtain hidle | hlt := hr
    · have hpos := List.length_pos_iff.mpr hidle
      omega
    · omega
  have hadmitting : Admitting s t (s.letIn t) := letIn_admitting (.inr hw)
  generalize s.letIn t = s' at hadmitting ⊢
  cases hadmitting with
  | closed hc => cases ho.symm.trans hc
  | reused hc i rest hi =>
    refine ⟨ho, hw, fun j hj => hmem j ?_, .inl ⟨i, hmem i ?_, phase?_hold.trans (if_pos rfl)⟩⟩
    · rw [hi]
      exact List.mem_cons_of_mem i hj
    · rw [hi]
      exact List.mem_cons_self
  | dials hc hi hm => exact ⟨ho, hw, hmem, .inr ⟨_, phase?_startDial.trans (if_pos rfl)⟩⟩
  | busy hc hi hm hf => exact absurd (hroom hi) (Nat.not_lt.mpr hm)
  | queues hc hi hm hf => exact absurd (hroom hi) (Nat.not_lt.mpr hm)

/-- With nobody in line, whoever gives a connection back leaves room. -/
theorem hasRoom_giveBack (hb : s.Balanced 0) (ho : s.closed = false) (hw : s.waiters = [])
    (hp : s.phase? t = some (.holding c)) :
    let s' := (s.forget t).giveBack c
    s'.closed = false ∧ s'.HasRoom ∧ ∀ i ∈ s'.idle, i ∈ s.idle ∨ i.connection = c := by
  intro s'
  have hline : (s.forget t).line = [] := line_eq_nil.mpr fun w hmem => by
    have hnil : (s.forget t).waiters = [] := hw
    rw [hnil] at hmem
    cases hmem
  have hpermits : s.permits = (s.forget t).permits + 1 := permits_forget hb.tickets_nodup hp
  change ((s.forget t).giveBack c).closed = false ∧ ((s.forget t).giveBack c).HasRoom ∧
    ∀ i ∈ ((s.forget t).giveBack c).idle, i ∈ s.idle ∨ i.connection = c
  simp only [giveBack, hline]
  split
  · refine ⟨ho, .inl (List.append_ne_nil_of_right_ne_nil _ (List.cons_ne_nil _ _)), fun i hi => ?_⟩
    obtain hi | hi := List.mem_append.mp hi
    · exact .inl hi
    · exact .inr (by rw [List.mem_singleton.mp hi])
  · refine ⟨ho, .inr ?_, fun i hi => .inl hi⟩
    have heq := hb.admitted_eq
    have hle := hb.admitted_le
    change s.admitted - 1 < s.config.maxOpen.toNat
    omega

end Pool.State

namespace Traffic
variable {s : Traffic} {t c n : Nat} {r : Request} {frame bytes : ByteArray}
  {x : Exchange} {h : Handled}
  {response : Response}

/-- A call can have a connection at once, and the connections that wait to be used again are
resting. -/
structure Ready (s : Traffic) : Prop where
  sound : s.Sound
  isOpen : s.pool.closed = false
  room : s.pool.HasRoom
  resting : ∀ i ∈ s.pool.idle, (s.link i.connection).Resting

structure Engaged (s : Traffic) (t : Nat) (p : Pool.Phase) (x : Exchange) : Prop where
  sound : s.Sound
  isOpen : s.pool.closed = false
  waiters_eq : s.pool.waiters = []
  resting : ∀ i ∈ s.pool.idle, (s.link i.connection).Resting
  phase?_eq : s.pool.phase? t = some p
  exchange_eq : s.exchanges.get? t = some x

theorem Engaged.stage?_eq {p : Pool.Phase} (h : s.Engaged t p x) : s.stage? t = some x.stage :=
  congrArg (Option.map Exchange.stage) h.exchange_eq

/-- A new pool is ready for a call. -/
theorem ready_ofConfig {config : PoolConfig} (h : ofConfig config = .ok s) : s.Ready := by
  have hs := sound_ofConfig h
  unfold ofConfig at h
  obtain ⟨pool, hp, he⟩ := bind_eq_ok.mp h
  cases he
  unfold Pool.State.ofConfig at hp
  split at hp
  · cases hp
  · rename_i hmax
    cases hp
    refine ⟨hs, rfl, .inr ?_, nofun⟩
    have hne : config.maxOpen.toNat ≠ 0 := fun h0 => hmax (beq_iff_eq.mpr (UInt64.toNat_inj.mp h0))
    exact Nat.pos_of_ne_zero hne

/-- Nobody stands in line while there is room. -/
theorem Ready.waiters_eq (h : s.Ready) : s.pool.waiters = [] := by
  -- whoever stands in line found nothing idle and all slots taken
  by_contra hne
  obtain ⟨hidle, hfull⟩ := h.sound.balanced.full_of_waiters hne
  obtain hroom | hroom := h.room
  · exact hroom hidle
  · omega

theorem Ready.pass (h : s.Ready) : (s.step (.pass n)).Ready :=
  ⟨sound_step h.sound trivial, h.isOpen, h.room, h.resting⟩

theorem Engaged.pass {p : Pool.Phase} (h : s.Engaged t p x) : (s.step (.pass n)).Engaged t p x :=
  ⟨sound_step h.sound trivial, h.isOpen, h.waiters_eq, h.resting, h.phase?_eq, h.exchange_eq⟩

/-- Whoever asks gets a resting connection, or leave to open one. -/
theorem Ready.ask (hs : s.Ready) (ht : t ∉ s.pool.asked) :
    (∃ c, (s.step (.ask t r)).Engaged t (.holding c) ⟨r, .asking⟩ ∧
      ((s.step (.ask t r)).link c).Resting) ∨
      ∃ c, (s.step (.ask t r)).Engaged t (.dialing c) ⟨r, .asking⟩ := by
  have hsound : (s.step (.ask t r)).Sound := sound_step hs.sound trivial
  have hstep : s.step (.ask t r) =
      { s.put t ⟨r, .asking⟩ with pool := { s.pool with asked := t :: s.pool.asked }.letIn t } := by
    change s.ask t r = _
    rw [Traffic.ask, if_neg ht]
    change { s.put t ⟨r, .asking⟩ with
      pool := if t ∈ s.pool.asked then s.pool else s.pool.ask t } = _
    rw [if_neg ht]
    rfl
  have hexchange : (s.put t ⟨r, .asking⟩).exchanges.get? t = some ⟨r, .asking⟩ := by
    rw [get?_put, if_pos rfl]
  obtain ⟨ho, hw, hidle, hphase⟩ := Pool.State.letIn_of_hasRoom (t := t)
    (Pool.State.balanced_withAsked hs.sound.balanced t) hs.isOpen hs.waiters_eq hs.room
  rw [hstep] at hsound ⊢
  have hresting (i : Pool.Idle) (hi : i ∈ s.pool.idle) := hs.resting i hi
  obtain ⟨i, hi, hp⟩ | ⟨c, hp⟩ := hphase
  · refine .inl ⟨i.connection, ⟨hsound, ho, hw, ?_, hp, hexchange⟩, hresting i hi⟩
    exact fun j hj => hresting j (hidle j hj)
  · exact .inr ⟨c, hsound, ho, hw, fun j hj => hresting j (hidle j hj), hp, hexchange⟩

/-- A connection that was opened is resting. -/
theorem Engaged.dialed (h : s.Engaged t (.dialing c) x) :
    (s.step (.dialed t (.ok ()))).Engaged t (.holding c) x ∧
      ((s.step (.dialed t (.ok ()))).link c).Resting := by
  have hsound : (s.step (.dialed t (.ok ()))).Sound := sound_step h.sound trivial
  have hstep : s.step (.dialed t (.ok ())) = { s.setLink c {} with pool := s.pool.hold t c } := by
    change s.dialed t (.ok ()) = _
    unfold Traffic.dialed
    rw [h.phase?_eq]
    change { s.setLink c {} with pool := s.pool.dialed t (.ok ()) } = _
    simp only [Pool.State.dialed, h.phase?_eq]
  have hlink (d : Nat) : (s.step (.dialed t (.ok ()))).link d = if d = c then {} else s.link d := by
    rw [hstep]
    exact link_setLink
  refine ⟨⟨hsound, ?_, ?_, fun i hi => ?_, ?_, ?_⟩, ?_⟩
  · rw [hstep]
    exact h.isOpen
  · rw [hstep]
    exact h.waiters_eq
  · rw [hlink]
    split
    · exact Link.resting_new
    · rw [hstep] at hi
      exact h.resting i hi
  · rw [hstep]
    exact Pool.State.phase?_hold.trans (if_pos rfl)
  · rw [hstep]
    exact h.exchange_eq
  · rw [hlink, if_pos rfl]
    exact Link.resting_new

/-- A call over its connection changes nothing else. -/
theorem Engaged.edit {s' : Traffic} {x' : Exchange} (h : s.Engaged t (.holding c) x)
    (he : Edits s s' t c) (hsound : s'.Sound) (hx : s'.exchanges.get? t = some x') :
    s'.Engaged t (.holding c) x' where
  sound := hsound
  isOpen := he.pool_eq ▸ h.isOpen
  waiters_eq := he.pool_eq ▸ h.waiters_eq
  resting i hi := by
    -- a connection that a call holds is not idle
    rw [he.pool_eq] at hi
    have hne := h.sound.owned.not_idle_of_holding h.sound.balanced h.phase?_eq hi
    rw [he.link_eq _ hne]
    exact h.resting i hi
  phase?_eq := he.pool_eq ▸ h.phase?_eq
  exchange_eq := hx

/-- A call that holds a connection begins to write its frame. -/
theorem Engaged.proceed (h : s.Engaged t (.holding c) ⟨r, .asking⟩)
    (hencode : r.encode = .ok frame) :
    (s.step (.proceed t)).Engaged t (.holding c) ⟨r, .writing c frame⟩ ∧
      (s.step (.proceed t)).link c = s.link c := by
  have hstep : s.step (.proceed t) = s.put t ⟨r, .writing c frame⟩ := by
    change s.proceed t = _
    simp only [Traffic.proceed, h.exchange_eq, h.phase?_eq, hencode]
  have hsound : (s.step (.proceed t)).Sound := sound_step h.sound trivial
  rw [hstep] at hsound ⊢
  exact ⟨h.edit edits_put hsound (by rw [get?_put, if_pos rfl]), rfl⟩

/-- All of the frame is written at once. -/
theorem Engaged.write (h : s.Engaged t (.holding c) ⟨r, .writing c frame⟩) (hl : (s.link c).Resting)
    (htwo : r.isOneway = false) :
    let s' := s.step (.write t frame.size)
    s'.Engaged t (.holding c) ⟨r, .reading c .empty⟩ ∧ (s'.link c).sent = frame ∧
      (s'.link c).unread = .empty ∧ (s'.link c).ended = false := by
  intro s'
  let l := ((s.link c).write (frame.extract 0 frame.size)).sign ⟨t, r⟩
  have hstep : s' = (s.setLink c l).put t ⟨r, .reading c .empty⟩ := by
    change s.write t frame.size = _
    simp only [Traffic.write, h.exchange_eq, Nat.le_refl, ↓reduceIte, htwo, Bool.false_eq_true]
    rfl
  have hlink : s'.link c = l := by
    rw [hstep]
    exact link_setLink.trans (if_pos rfl)
  have hsound : s'.Sound := sound_step h.sound trivial
  refine ⟨h.edit (hstep ▸ edits_setLink) hsound ?_, ?_, ?_, ?_⟩
  · rw [hstep, get?_put, if_pos rfl]
  · rw [hlink]
    change (s.link c).sent ++ frame.extract 0 frame.size = frame
    rw [hl.sent_eq, ByteArray.empty_append, ByteArray.extract_zero_size]
  · rw [hlink]
    exact hl.unread_eq
  · rw [hlink]
    exact hl.ended_eq

/-- The peer handles the frame. -/
theorem Engaged.handle (he : s.Engaged t (.holding c) ⟨r, .reading c .empty⟩)
    (hsent : (s.link c).sent = frame) (hunread : (s.link c).unread = .empty)
    (hended : (s.link c).ended = false) (hf : Stream.IsFrame frame)
    (hmax : frame.size ≤ Stream.maxFrame) (hserves : Serves frame h) :
    let s' := s.step (.handle c frame h)
    s'.Engaged t (.holding c) ⟨r, .reading c .empty⟩ ∧ (s'.link c).sent = .empty ∧
      (s'.link c).unread = h.written ∧ (s'.link c).ended = h.ends := by
  intro s'
  have hstep : s' = s.setLink c ((s.link c).handle frame h) := by
    change s.onLink c _ = _
    unfold onLink
    cases hl : s.links.get? c with
    | none =>
      rw [link, hl] at hended
      cases hended
    | some l => rw [link, hl, Option.getD_some]
  have hlink : s'.link c = (s.link c).handle frame h := by
    rw [hstep]
    exact link_setLink.trans (if_pos rfl)
  have hedits : Edits s s' t c := by
    rw [hstep]
    exact ⟨rfl, fun _ _ => rfl, fun d hd => link_setLink.trans (if_neg hd)⟩
  have hsound : s'.Sound := sound_step he.sound hserves
  have holdest : (s.link c).oldest? = some (frame, frame.size) := by
    rw [Link.oldest?, hended, hsent, Stream.readFrame_self hf hmax]
    rfl
  refine ⟨he.edit hedits hsound (hstep ▸ he.exchange_eq), ?_⟩
  rw [hlink, Link.handle, holdest]
  dsimp only
  rw [if_pos rfl, hsent, hunread]
  exact ⟨ByteArray.extract_same, ByteArray.empty_append, rfl⟩

/-- The response is read, and the connection goes back. -/
theorem Engaged.read (he : s.Engaged t (.holding c) ⟨r, .reading c .empty⟩)
    (hsent : (s.link c).sent = .empty) (hunread : (s.link c).unread = bytes)
    (hended : (s.link c).ended = false) (hf : Stream.IsFrame bytes)
    (hmax : bytes.size ≤ Stream.maxFrame) (haccept : r.accept bytes = .ok response) :
    let s' := s.step (.read t bytes.size)
    s'.Ready ∧ s'.stage? t = some (.ended (.ok response)) := by
  intro s'
  let s₁ := (s.setLink c { s.link c with unread := .empty }).put t ⟨r, .ended (.ok response)⟩
  have hstep : s' = s₁.stepPool (.release t) := by
    change s.read t bytes.size = _
    simp only [Traffic.read, he.exchange_eq, hunread, ByteArray.empty_append,
      ByteArray.extract_zero_size,
      Stream.readFrame_self hf hmax, haccept, ByteArray.extract_same, finish_ok]
    rfl
  have hsound : s'.Sound := sound_step he.sound trivial
  have hlink (d : Nat) :
      s'.link d = if d = c then { s.link c with unread := .empty } else s.link d := by
    rw [hstep]
    exact link_setLink
  have hpool : s'.pool = (s.pool.forget t).giveBack c := by
    rw [hstep]
    change s.pool.release t = _
    rw [Pool.State.release, he.phase?_eq]
  obtain ⟨ho, hroom, hidle⟩ :=
    Pool.State.hasRoom_giveBack he.sound.balanced he.isOpen he.waiters_eq he.phase?_eq
  rw [← hpool] at ho hroom hidle
  -- what goes idle is the connection of the call, with all read that came
  refine ⟨⟨hsound, ho, hroom, fun i hi => ?_⟩, ?_⟩
  · rw [hlink]
    split
    · exact ⟨hsent, rfl, hended⟩
    · rename_i hne
      exact he.resting i ((hidle i hi).resolve_right hne)
  · rw [hstep]
    exact congrArg (Option.map Exchange.stage) (get?_put.trans (if_pos rfl))

end Traffic
end RemoteCall
