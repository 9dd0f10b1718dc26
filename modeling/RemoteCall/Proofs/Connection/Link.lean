import RemoteCall.Connection.Traffic
import RemoteCall.Proofs.Connection.Serving

/-! The bytes of a link: frames that the peer has not handled yet, and of the peer at most the
response to the last of them.

A one-way frame may lie on a link long after its caller is gone. A frame whose caller waits is the
last, because nobody else writes before its response has been read. -/
namespace RemoteCall
variable {l : Link} {w : Writer} {ws : List Writer} {r : Request} {frame left rest got : ByteArray}
  {h : Handled} {n : Nat}

def Request.Sendable (r : Request) : Prop := r.encode = .ok r.bytes

theorem Request.sendable_of_encode {bs : ByteArray} (h : r.encode = .ok bs) :
    bs = r.bytes ∧ r.Sendable := by
  obtain ⟨hr, hh, hb, rfl⟩ := Request.encode_eq_ok.mp h
  exact ⟨rfl, h⟩

theorem Request.Sendable.isFrame (h : r.Sendable) : Stream.IsFrame r.bytes := by
  obtain ⟨-, hh, hb, -⟩ := Request.encode_eq_ok.mp h
  exact Request.isFrame_bytes hh hb

theorem Request.Sendable.decode (h : r.Sendable) : Request.decode r.bytes = .ok r.withLengths := by
  obtain ⟨hr, hh, hb, -⟩ := Request.encode_eq_ok.mp h
  exact Request.decode_bytes hr hh hb

def frames : List Writer → ByteArray
  | [] => .empty
  | w :: rest => w.request.bytes ++ frames rest

theorem frames_append_singleton : frames (ws ++ [w]) = frames ws ++ w.request.bytes := by
  induction ws with
  | nil => simp [frames]
  | cons v ws ih => rw [List.cons_append, frames, frames, ih, ByteArray.append_assoc]

def OnewayAll (ws : List Writer) : Prop := ∀ w ∈ ws, w.request.Sendable ∧ w.request.isOneway = true

namespace Link

/-- The peer takes the first of the frames, or nothing happens. -/
theorem handle_cons (frame : ByteArray) (h : Handled) (hs : l.sent = w.request.bytes ++ rest)
    (hw : w.request.Sendable) :
    l.handle frame h = l ∨ frame = w.request.bytes ∧ l.handle frame h =
      { sent := rest
        writers := l.writers.tail
        unread := l.unread ++ h.written
        ended := h.ends
        answers := l.answers ++ l.writers.head?.toList.map fun v => ⟨v.ticket, frame, h⟩ } := by
  have hread := @Stream.readFrame_append _ rest hw.isFrame
  have hrest : l.sent.extract w.request.bytes.size l.sent.size = rest := by
    rw [hs, ByteArray.size_append]
    exact ByteArray.extract_append_eq_right rfl rfl
  have hold : l.oldest? = none ∨ l.oldest? = some (w.request.bytes, w.request.bytes.size) := by
    rw [oldest?, hs, hread]
    split
    · exact .inl rfl
    · split
      · exact .inl rfl
      · exact .inr rfl
  unfold handle
  rcases hold with hold | hold
  · rw [hold]
    exact .inl rfl
  · rw [hold]
    dsimp only
    split
    · rename_i hf
      rw [hrest]
      exact .inr ⟨ByteArray.ext hf.symm, rfl⟩
    · exact .inl rfl

/-- Nobody waits for a response, and of the next frame only a part is written. -/
structure Clean (l : Link) (left : ByteArray) : Prop where
  unread_eq : l.unread = .empty
  sent_eq : l.sent = frames l.writers ++ left
  oneway : OnewayAll l.writers
  /-- The part is not yet a frame. -/
  part : ∃ rest, rest ≠ .empty ∧ Stream.IsFrame (left ++ rest)

/-- As long as the last frame is written in part, the peer finds no other to handle. -/
theorem oldest?_part (hs : l.sent = left)
    (hp : ∃ rest, rest ≠ .empty ∧ Stream.IsFrame (left ++ rest)) : l.oldest? = none := by
  obtain ⟨rest, hne, hf⟩ := hp
  unfold oldest?
  split
  · rfl
  · cases hr : Stream.readFrame l.sent 0 with
    | error m => rfl
    | ok x => exact absurd (Stream.eq_of_readFrame hf (hs ▸ hr)).2.2 hne

/-- The peer handles a one-way frame and writes nothing. -/
theorem clean_handle (hc : l.Clean left) (hs : Serves frame h) : (l.handle frame h).Clean left := by
  cases hw : l.writers with
  | nil =>
    have hsent : l.sent = left := by rw [hc.sent_eq, hw, frames, ByteArray.empty_append]
    rw [handle, oldest?_part hsent hc.part]
    exact hc
  | cons w ws =>
    have hone := hc.oneway w (by simp [hw])
    have hsent : l.sent = w.request.bytes ++ (frames ws ++ left) := by
      rw [hc.sent_eq, hw, frames, ByteArray.append_assoc]
    rcases handle_cons frame h hsent hone.1 with he | ⟨rfl, he⟩
    · rw [he]
      exact hc
    · have hwritten := hs.written_of_oneway hone.1.decode hone.2
      rw [he]
      refine ⟨?_, ?_, fun v hv => hc.oneway v ?_, hc.part⟩
      · rw [hc.unread_eq, hwritten, ByteArray.empty_append]
      · rw [hw, List.tail_cons]
      · exact List.mem_of_mem_tail hv

theorem clean_hangUp (hc : l.Clean left) : (l.hangUp n).Clean left := by
  refine ⟨?_, hc.sent_eq, hc.oneway, hc.part⟩
  change l.unread.extract 0 n = .empty
  rw [hc.unread_eq]
  simp

/-- All that the peer could take whole is one-way. -/
theorem mem_of_readAll (hw : OnewayAll ws)
    (hp : ∃ rest, rest ≠ .empty ∧ Stream.IsFrame (left ++ rest)) :
    ∀ f ∈ (Stream.readAll (frames ws ++ left)).1, ∃ w ∈ ws, f = w.request.bytes := by
  induction ws with
  | nil =>
    obtain ⟨rest, hne, hf⟩ := hp
    rw [frames, ByteArray.empty_append]
    cases hr : Stream.readFrame left 0 with
    | error m =>
      rw [Stream.readAll, Stream.readFrom_of_error hr]
      exact fun f hf => absurd hf List.not_mem_nil
    | ok x => exact absurd (Stream.eq_of_readFrame hf hr).2.2 hne
  | cons w ws ih =>
    -- a frame that is too large stops the peer, any other is the first that it takes
    have hone := hw w List.mem_cons_self
    have ih := ih fun v hv => hw v (List.mem_cons_of_mem w hv)
    rw [frames, ByteArray.append_assoc]
    by_cases hm : w.request.bytes.size ≤ Stream.maxFrame
    · rw [Stream.readAll_append hone.1.isFrame hm]
      intro f hf
      rcases List.mem_cons.mp hf with rfl | hf
      · exact ⟨w, List.mem_cons_self, rfl⟩
      · obtain ⟨v, hv, hfv⟩ := ih f hf
        exact ⟨v, List.mem_cons_of_mem w hv, hfv⟩
    · rw [Stream.readAll_append_of_lt hone.1.isFrame (Nat.lt_of_not_le hm)]
      exact fun f hf => absurd hf List.not_mem_nil

/-- No byte of the peer is unread, and none is still to come. -/
def Quiescent (l : Link) : Prop := l.unread = .empty ∧ l.owes = false

/-- Where nobody waits for a response, none comes. -/
theorem Clean.quiescent (hc : l.Clean left) : l.Quiescent := by
  refine ⟨hc.unread_eq, ?_⟩
  have hany : (Stream.readAll l.sent).1.any awaits = false := by
    rw [List.any_eq_false]
    intro f hf
    rw [hc.sent_eq] at hf
    obtain ⟨w, hw, rfl⟩ := mem_of_readAll hc.oneway hc.part f hf
    have hone := hc.oneway w hw
    have hway : w.request.withLengths.isOneway = true := hone.2
    simp [awaits, hone.1.decode, hway]
  rw [owes, hany, Bool.and_false]

theorem part_empty : ∃ rest, rest ≠ .empty ∧ Stream.IsFrame (ByteArray.empty ++ rest) := by
  have hf := @Stream.isFrame_fixedHead {} .empty .empty (by decide) (by decide)
  refine ⟨_, fun he => ?_, by rw [ByteArray.empty_append]; exact hf⟩
  have hsize := hf.headSize_le_size
  rw [he] at hsize
  exact absurd hsize (by decide)

theorem clean_new : ({} : Link).Clean .empty :=
  ⟨rfl, rfl, fun _ hv => absurd hv List.not_mem_nil, part_empty⟩

/-- A request is being written, and some of it is left. -/
structure Writing (l : Link) (r : Request) (rest : ByteArray) : Prop where
  sendable : r.Sendable
  rest_ne : rest ≠ .empty
  clean : ∃ left, l.Clean left ∧ left ++ rest = r.bytes

/-- A writer waits for its response, of which it has read some bytes. -/
inductive Reading (l : Link) (w : Writer) (got : ByteArray) : Prop
  | waiting (ws : List Writer) (hw : l.writers = ws ++ [w]) (hone : OnewayAll ws)
    (hs : l.sent = frames l.writers) (hg : got = .empty) (hu : l.unread = .empty)
  | answered (h : Handled) (lost : ByteArray) (ha : ⟨w.ticket, w.request.bytes, h⟩ ∈ l.answers)
    (hh : Serves w.request.bytes h) (hb : got ++ (l.unread ++ lost) = h.written)
    (hw : l.writers = []) (hs : l.sent = .empty)

theorem writing_handle (hw : l.Writing r rest) (hs : Serves frame h) :
    (l.handle frame h).Writing r rest := by
  obtain ⟨left, hc, hl⟩ := hw.clean
  exact ⟨hw.sendable, hw.rest_ne, left, clean_handle hc hs, hl⟩

theorem writing_hangUp (hw : l.Writing r rest) : (l.hangUp n).Writing r rest := by
  obtain ⟨left, hc, hl⟩ := hw.clean
  exact ⟨hw.sendable, hw.rest_ne, left, clean_hangUp hc, hl⟩

/-- As long as a writer reads, what the peer writes is its response, or nothing. -/
theorem reading_handle (hr : l.Reading w got) (hw : w.request.Sendable) (hs : Serves frame h) :
    (l.handle frame h).Reading w got := by
  cases hr with
  | answered h' lost ha hh hb hw' hsent =>
    rw [handle, oldest?_part hsent part_empty]
    exact .answered h' lost ha hh hb hw' hsent
  | waiting ws hws hone hsent hg hu =>
    -- the frame that is taken is that of the reader, or a one-way frame before it
    cases ws with
    | nil =>
      rw [List.nil_append] at hws
      have hsent' : l.sent = w.request.bytes ++ .empty := by rw [hsent, hws, frames, frames]
      rcases handle_cons frame h hsent' hw with he | ⟨rfl, he⟩
      · rw [he]
        exact .waiting [] hws hone hsent hg hu
      · rw [he]
        refine .answered h .empty ?_ hs ?_ ?_ rfl
        · simp [hws]
        · rw [hg, hu, ByteArray.empty_append, ByteArray.empty_append, ByteArray.append_empty]
        · rw [hws, List.tail_cons]
    | cons v ws =>
      have hv := hone v List.mem_cons_self
      have hsent' : l.sent = v.request.bytes ++ frames (ws ++ [w]) := by
        rw [hsent, hws, List.cons_append, frames]
      rcases handle_cons frame h hsent' hv.1 with he | ⟨rfl, he⟩
      · rw [he]
        exact .waiting (v :: ws) hws hone hsent hg hu
      · have hwritten := hs.written_of_oneway hv.1.decode hv.2
        rw [he]
        refine .waiting ws ?_ (fun u hu => hone u (List.mem_cons_of_mem v hu)) ?_ hg ?_
        · rw [hws, List.cons_append, List.tail_cons]
        · rw [hws, List.cons_append, List.tail_cons]
        · change l.unread ++ h.written = .empty
          rw [hu, hwritten, ByteArray.empty_append]

theorem reading_hangUp (hr : l.Reading w got) : (l.hangUp n).Reading w got := by
  cases hr with
  | waiting ws hws hone hsent hg hu =>
    refine .waiting ws hws hone hsent hg ?_
    change l.unread.extract 0 n = .empty
    rw [hu]
    simp
  | answered h lost ha hh hb hw hs =>
    refine .answered h (l.unread.extract n l.unread.size ++ lost) ha hh ?_ hw hs
    change got ++ (l.unread.extract 0 n ++ (l.unread.extract n l.unread.size ++ lost)) = h.written
    rw [← hb, ← ByteArray.append_assoc (a := l.unread.extract 0 n), extract_append_rest]

/-- A request can be written where nothing is on its way. -/
theorem writing_of_clean (hc : l.Clean .empty) (hr : r.Sendable) : l.Writing r r.bytes where
  sendable := hr
  rest_ne he := by
    have hsize := hr.isFrame.headSize_le_size
    rw [he] at hsize
    exact absurd hsize (by decide)
  clean := ⟨.empty, hc, ByteArray.empty_append⟩

/-- Some more bytes are written, but not all. -/
theorem writing_write (hw : l.Writing r rest) (hn : n < rest.size) :
    (l.write (rest.extract 0 n)).Writing r (rest.extract n rest.size) := by
  obtain ⟨left, hc, hl⟩ := hw.clean
  have hne : rest.extract n rest.size ≠ .empty := by
    rw [ne_eq, ByteArray.extract_eq_empty_iff]
    omega
  have hall : left ++ rest.extract 0 n ++ rest.extract n rest.size = r.bytes := by
    rw [ByteArray.append_assoc, extract_append_rest, hl]
  refine ⟨hw.sendable, hne, left ++ rest.extract 0 n, ⟨hc.unread_eq, ?_, hc.oneway, ?_⟩, hall⟩
  · change l.sent ++ rest.extract 0 n = _
    rw [hc.sent_eq, ByteArray.append_assoc]
    rfl
  · exact ⟨_, hne, hall.symm ▸ hw.sendable.isFrame⟩

theorem sent_sign (hw : l.Writing r rest) (t : Nat) :
    l.unread = .empty ∧ OnewayAll l.writers ∧ l.sent ++ rest = frames (l.writers ++ [⟨t, r⟩]) := by
  obtain ⟨left, hc, hl⟩ := hw.clean
  refine ⟨hc.unread_eq, hc.oneway, ?_⟩
  rw [hc.sent_eq, ByteArray.append_assoc, hl, frames_append_singleton]

/-- After the last byte of a one-way frame the link is as clean as before the first. -/
theorem clean_sign (hw : l.Writing r rest) (hr : r.isOneway = true) (t : Nat) :
    ((l.write rest).sign ⟨t, r⟩).Clean .empty := by
  obtain ⟨hu, hone, hs⟩ := sent_sign hw t
  refine ⟨hu, ?_, fun v hv => ?_, part_empty⟩
  · rw [ByteArray.append_empty]
    exact hs
  · rcases List.mem_append.mp hv with hv | hv
    · exact hone v hv
    · rw [List.mem_singleton.mp hv]
      exact ⟨hw.sendable, hr⟩

theorem reading_sign (hw : l.Writing r rest) (t : Nat) :
    ((l.write rest).sign ⟨t, r⟩).Reading ⟨t, r⟩ .empty := by
  obtain ⟨hu, hone, hs⟩ := sent_sign hw t
  exact .waiting l.writers rfl hone hs rfl hu

/-- Some more bytes are read. -/
theorem reading_read (hr : l.Reading w got) (n : Nat) :
    { l with unread := l.unread.extract n l.unread.size }.Reading w
      (got ++ l.unread.extract 0 n) := by
  cases hr with
  | waiting ws hw hone hs hg hu =>
    refine .waiting ws hw hone hs ?_ ?_
    · rw [hg, hu]
      simp
    · change l.unread.extract n l.unread.size = .empty
      rw [hu]
      simp
  | answered h lost ha hh hb hw hs =>
    refine .answered h lost ha hh ?_ hw hs
    rw [← hb, ← ByteArray.append_assoc (a := got ++ l.unread.extract 0 n),
      ByteArray.append_assoc (a := got), extract_append_rest, ByteArray.append_assoc]

/-- What is read whole is the response of the peer to this request, and nothing of it is left. -/
theorem accept_of_reading (hr : l.Reading w got) (hw : w.request.Sendable)
    (htwo : w.request.isOneway = false) (hf : Stream.readFrame got 0 = .ok (frame, n)) :
    n = got.size ∧ { l with unread := got.extract n got.size ++ l.unread }.Clean .empty ∧
      ∃ h response, ⟨w.ticket, w.request.bytes, h⟩ ∈ l.answers ∧ Serves w.request.bytes h ∧
        Response.decode h.written = .ok response ∧ w.request.accept frame = .ok response := by
  cases hr with
  | waiting ws hws hone hs hg hu =>
    rw [hg] at hf
    cases hf
  | answered h lost ha hh hb hws hs =>
    have htwo' : w.request.withLengths.isOneway = false := htwo
    -- the peer wrote nothing, and no frame could be read, or it wrote one frame and that was read
    rcases hh.written_of_twoway hw.decode htwo' with he | ⟨hframe, response, hd, hid⟩
    · rw [he, ByteArray.append_eq_empty_iff] at hb
      rw [hb.1] at hf
      cases hf
    · rw [← hb] at hframe
      obtain ⟨rfl, rfl, hrest⟩ := Stream.eq_of_readFrame hframe hf
      have hu : l.unread = .empty := (ByteArray.append_eq_empty_iff.mp hrest).1
      have hwritten : h.written = frame := by rw [← hb, hrest, ByteArray.append_empty]
      refine ⟨rfl, ⟨?_, ?_, ?_, part_empty⟩, h, response, ha, hh, hd, ?_⟩
      · change frame.extract frame.size frame.size ++ l.unread = .empty
        rw [ByteArray.extract_same, hu, ByteArray.empty_append]
      · change l.sent = frames l.writers ++ .empty
        rw [hs, hws, frames, ByteArray.append_empty]
      · change OnewayAll l.writers
        rw [hws]
        exact fun v hv => absurd hv List.not_mem_nil
      · have hid' : response.codes.messageId = w.request.codes.messageId := hid
        rw [Request.accept, bind_eq_ok]
        exact ⟨response, hwritten ▸ hd, by rw [if_pos (beq_iff_eq.mpr hid')]; rfl⟩

end Link
end RemoteCall
