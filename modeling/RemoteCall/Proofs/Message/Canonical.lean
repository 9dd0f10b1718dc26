import RemoteCall.Proofs.Message.Request

/-! Which requests are written as they were read.

Reading takes the entries in any order, and lets the byte that parts a key from its value stand in
every text but a key. Writing puts the entries in key order and refuses that byte. -/
namespace RemoteCall.Request
variable {r : Request} {frame : ByteArray}

/-- A text of the header other than a key holds the byte that parts a key from its value. -/
def HoldsPairSplitter (r : Request) : Prop :=
  pairSplitter ∈ utf8 r.service ∨ pairSplitter ∈ utf8 r.method ∨
    ∃ e ∈ r.metadata.entries, pairSplitter ∈ utf8 e.2

namespace Layout
variable {l : Layout}

def InOrder (l : Layout) : Prop := (l.entries.map Prod.fst).Pairwise fun a b => utf8 a < utf8 b

/-- Only a text other than a key can keep what was read from being written. -/
theorem Fits.isWritable_iff (hl : l.Fits frame) :
    (l.request frame).IsWritable ↔ ¬ (l.request frame).HoldsPairSplitter := by
  have hentries : ∀ e ∈ (l.request frame).metadata.entries, IsEntry e :=
    fun e he => hl.readable.entries e (hl.readable.perm_ofList.mem_iff.mp he)
  constructor
  · rintro ⟨hservice, hmethod, hmetadata⟩ (h | h | ⟨e, he, h⟩)
    · exact hservice.2 h
    · exact hmethod.2 h
    · exact (hmetadata e he).2.2 h
  · intro h
    -- reading has kept the separator out of all texts, and the pair splitter out of the keys
    refine ⟨⟨hl.readable.service, fun hs => h (.inl hs)⟩,
      ⟨hl.readable.method, fun hm => h (.inr (.inl hm))⟩, fun e he => ?_⟩
    have hentry := hentries e he
    exact ⟨⟨hentry.key, hentry.key_pair⟩, hentry.value, fun hv => h (.inr (.inr ⟨e, he, hv⟩))⟩

/-- Putting the entries in order keeps the size of the header. -/
theorem Fits.headerSize_request (hl : l.Fits frame) :
    (l.request frame).headerSize = bigEndianAt frame 0 4 := by
  have hperm : (l.request frame).fieldBytes.Perm l.bytes :=
    ((hl.readable.perm_ofList.flatMap_right entryBytes).cons splitter).append_left _
  have hfields : (frame.extract headSize (bigEndianAt frame 0 4)).size = l.bytes.length := by
    rw [← hl.bytes_eq]
    rfl
  -- what is written of the texts is as long as what was read of them
  have hhead := hl.headSize_le
  have hsize := hl.le_size
  rw [ByteArray.size_extract, Nat.min_eq_left hsize] at hfields
  rw [← size_fieldBytes, List.size_toByteArray, hperm.length_eq]
  omega

/-- A request that was read knows its lengths. -/
theorem Fits.withLengths_request (hl : l.Fits frame) :
    (l.request frame).withLengths = l.request frame := by
  have hdata : (l.request frame).data.size = frame.size - bigEndianAt frame 0 4 := by
    rw [request, ByteArray.size_extract, Nat.min_self]
  rw [withLengths, hl.headerSize_request, hdata]
  rfl

theorem Fits.isReadable_layout (hl : l.Fits frame) : (l.request frame).layout.IsReadable where
  service := hl.readable.service
  method := hl.readable.method
  entries e he := hl.readable.entries e (hl.readable.perm_ofList.mem_iff.mp he)
  keys := (l.request frame).metadata.nodup_keys

/-- What was read is written as it stood, just if its texts stood as a writer would put them. -/
theorem Fits.bytes_request_eq (hl : l.Fits frame) :
    (l.request frame).bytes = frame ↔ (l.request frame).layout = l := by
  have hhead := hl.headSize_le
  have hsize := hl.le_size
  have hdata : (l.request frame).data.size = bigEndianAt frame 4 4 := by
    rw [hl.body_eq, request, ByteArray.size_extract, Nat.min_self]
  -- the head and the data are those of the frame, so that only the texts can differ
  have hfixed : (fixedHead (.ofNat (l.request frame).headerSize)
      (.ofNat (l.request frame).data.size)
      (l.request frame).codes).toByteArray = frame.extract 0 headSize := by
    rw [hl.headerSize_request, hdata]
    exact fixedHead_eq_extract (Nat.le_trans hhead hsize)
  have hframe : frame = frame.extract 0 headSize ++
      (l.bytes.toByteArray ++ (l.request frame).data) := by
    have hfields : l.bytes.toByteArray = frame.extract headSize (bigEndianAt frame 0 4) := by
      rw [← hl.bytes_eq, toByteArray_toList]
    rw [hfields, request, ByteArray.extract_append_extract, Nat.min_eq_left hhead,
      Nat.max_eq_right hsize, extract_append_rest]
  rw [← hl.isReadable_layout.bytes_inj hl.readable, Request.bytes, hfixed]
  constructor
  · intro h
    -- the heads cancel on the left and the data on the right
    have hrest := h.trans hframe
    have hlists := congrArg (fun b : ByteArray => b.data.toList) hrest
    simp only [ByteArray.data_append, Array.toList_append, List.append_cancel_left_eq,
      List.append_cancel_right_eq, List.data_toByteArray] at hlists
    exact hlists
  · intro h
    rw [show (l.request frame).fieldBytes = l.bytes from h, ← hframe]

/-- What was read is in the order in which it stood exactly if that was the order of the keys. -/
theorem Fits.layout_request_eq (hl : l.Fits frame) : (l.request frame).layout = l ↔ l.InOrder := by
  have hsorted := (KeyMap.ofList l.entries).sorted
  have horder : l.InOrder ↔ l.entries.Pairwise fun a b => a.1 < b.1 := by
    simp only [InOrder, List.pairwise_map, utf8_lt_utf8]
  rw [horder]
  constructor
  · intro h
    have hentries : (KeyMap.ofList l.entries).entries = l.entries := congrArg entries h
    exact hentries ▸ hsorted
  · intro h
    -- there is only one sorted list of these entries
    have hentries : KeyMap.ofList l.entries = ⟨l.entries, h⟩ :=
      KeyMap.eq_of_perm hl.readable.perm_ofList
    rw [Request.layout, request, hentries]

end Layout

/-- Of a request that was read, writing fails exactly if some text other than a key holds the byte
that parts a key from its value. Else what is written reads back as the same request, and it is what
was read before exactly if the keys stood there in the order of their bytes. -/
theorem encode_decoded (h : decode frame = .ok r) :
    ((∃ e, r.encode = .error e) ↔ r.HoldsPairSplitter) ∧
    (∀ e, r.encode = .error e → e.kind = .encode) ∧
    (¬ r.HoldsPairSplitter → ∃ out, r.encode = .ok out ∧ decode out = .ok r ∧
      (out = frame ↔ ∃ l : Layout, l.Fits frame ∧ l.InOrder)) := by
  obtain ⟨l, hl, rfl⟩ := decode_eq_ok.mp h
  -- lengths that were read fit their words
  have hh : (l.request frame).headerSize < UInt32.size := by
    rw [hl.headerSize_request]
    exact bigEndianAt_lt
  have hb : (l.request frame).data.size < UInt32.size := by
    rw [Layout.request, ByteArray.size_extract, Nat.min_self, ← hl.body_eq]
    exact bigEndianAt_lt
  refine ⟨⟨fun herror => ?_, fun hr => ?_⟩, fun e => kind_of_encode, fun hr => ?_⟩
  · obtain ⟨e, he⟩ := herror
    by_contra hr
    have hok := encode_eq_ok.mpr ⟨hl.isWritable_iff.mpr hr, hh, hb, rfl⟩
    rw [hok] at he
    cases he
  · cases hencode : (l.request frame).encode with
    | ok out => exact absurd hr (hl.isWritable_iff.mp (encode_eq_ok.mp hencode).1)
    | error e => exact ⟨e, rfl⟩
  · have hwritable := hl.isWritable_iff.mpr hr
    refine ⟨_, encode_eq_ok.mpr ⟨hwritable, hh, hb, rfl⟩, ?_, ?_⟩
    · rw [decode_bytes hwritable hh hb, hl.withLengths_request]
    · rw [hl.bytes_request_eq, hl.layout_request_eq]
      constructor
      · intro horder
        exact ⟨l, hl, horder⟩
      · -- the frame has no other layout
        rintro ⟨m, hm, horder⟩
        exact hl.eq hm ▸ horder

def unorderedFrame : ByteArray :=
  ([0, 0, 0, 27, 0, 0, 0, 1, 0, 0, 0, 7, 1, 0, 0] ++ utf8 "S\nm\nb\r1\na\r2\n" ++ [255]).toByteArray

def unorderedLayout : Layout := ⟨"S", "m", [("b", "1"), ("a", "2")]⟩

theorem unorderedLayout_fits : unorderedLayout.Fits unorderedFrame where
  headSize_le := by decide +kernel
  le_size := by decide +kernel
  body_eq := by decide +kernel
  bytes_eq := by decide +kernel
  readable :=
    { service := by decide +kernel
      method := by decide +kernel
      entries := fun e he => by
        rw [unorderedLayout, List.mem_cons, List.mem_singleton] at he
        rcases he with rfl | rfl
        · exact ⟨by decide +kernel, by decide +kernel, by decide +kernel⟩
        · exact ⟨by decide +kernel, by decide +kernel, by decide +kernel⟩
      keys := by decide +kernel }

/-- Entries against the order of their keys are put in order. -/
theorem encode_decoded_unordered :
    decode unorderedFrame = .ok (unorderedLayout.request unorderedFrame) ∧
    ¬ (unorderedLayout.request unorderedFrame).HoldsPairSplitter ∧
    ∃ out, (unorderedLayout.request unorderedFrame).encode = .ok out ∧
      decode out = .ok (unorderedLayout.request unorderedFrame) ∧ out ≠ unorderedFrame := by
  have hd : decode unorderedFrame = .ok (unorderedLayout.request unorderedFrame) :=
    decode_eq_ok.mpr ⟨_, unorderedLayout_fits, rfl⟩
  have hr : ¬ (unorderedLayout.request unorderedFrame).HoldsPairSplitter := by
    unfold HoldsPairSplitter
    decide +kernel
  obtain ⟨out, hout, hback, hsame⟩ := (encode_decoded hd).2.2 hr
  refine ⟨hd, hr, out, hout, hback, fun he => ?_⟩
  obtain ⟨l, hl, horder⟩ := hsame.mp he
  obtain rfl := hl.eq unorderedLayout_fits
  exact absurd horder (by
    unfold Layout.InOrder
    decide +kernel)

end RemoteCall.Request
