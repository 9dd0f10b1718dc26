import RemoteCall.Message.Response
import RemoteCall.Proofs.Data.Outcome
import RemoteCall.Proofs.Message.Stream

/-! A response is read back as it was, with its true lengths, and written as it was read.

Its error and its data take any bytes, so that a frame is a response as soon as its lengths are
true. -/
namespace RemoteCall.Response
variable {r : Response} {bs : ByteArray}

def bytes (r : Response) : ByteArray :=
  (fixedHead (.ofNat r.headerSize) (.ofNat r.data.size) r.codes).toByteArray ++ (r.error ++ r.data)

/-- A response is written just if its lengths take 32 bits. -/
theorem encode_eq_ok : r.encode = .ok bs ↔ r.headerSize < UInt32.size ∧ r.data.size < UInt32.size ∧
    bs = r.bytes := by
  rw [encode, bind_eq_ok]
  constructor
  · rintro ⟨w, hw, hbs⟩
    obtain ⟨hh, hb, rfl⟩ := lengthWords_eq_ok.mp hw
    exact ⟨hh, hb, (Except.ok.inj hbs).symm.trans ByteArray.append_assoc⟩
  · rintro ⟨hh, hb, rfl⟩
    exact ⟨_, lengthWords_eq_ok.mpr ⟨hh, hb, rfl⟩, congrArg _ ByteArray.append_assoc⟩

theorem isFrame_bytes (hh : r.headerSize < UInt32.size) (hb : r.data.size < UInt32.size) :
    Stream.IsFrame r.bytes := Stream.isFrame_fixedHead hh hb

theorem size_bytes : r.bytes.size = r.headerSize + r.data.size := by
  rw [bytes, ByteArray.size_append, ByteArray.size_append, size_fixedHead,
    headerSize, Nat.add_assoc]

def standing (bs : ByteArray) : Response where
  headLength := .ofNat (bigEndianAt bs 0 4)
  bodyLength := .ofNat (bs.size - bigEndianAt bs 0 4)
  codes := codesAt bs
  error := bs.extract headSize (bigEndianAt bs 0 4)
  data := bs.extract (bigEndianAt bs 0 4) bs.size

/-- A response is read just if its lengths are those of the frame. -/
theorem decode_eq_ok : decode bs = .ok r ↔
    (headSize ≤ bigEndianAt bs 0 4 ∧ bigEndianAt bs 0 4 ≤ bs.size ∧
      bigEndianAt bs 4 4 = bs.size - bigEndianAt bs 0 4) ∧ r = standing bs := by
  rw [decode, mapError_eq_ok, decode?, bind_eq_ok]
  constructor
  · rintro ⟨n, hn, hr⟩
    obtain ⟨hlengths, rfl⟩ := headerLength_eq_ok.mp hn
    exact ⟨hlengths, (Except.ok.inj hr).symm⟩
  · rintro ⟨hlengths, rfl⟩
    exact ⟨_, headerLength_eq_ok.mpr ⟨hlengths, rfl⟩, rfl⟩

theorem kind_of_decode {e : Error} (h : decode bs = .error e) : e.kind = .protocol := by
  obtain ⟨m, -, rfl⟩ := mapError_eq_error.mp h
  rfl

theorem standing_bytes (hh : r.headerSize < UInt32.size) : standing r.bytes = r.withLengths := by
  have hheader : bigEndianAt r.bytes 0 4 = r.headerSize := by
    rw [bytes, header_fixedHead, UInt32.toNat_ofNat_of_lt' hh]
  have hbody : r.bytes.size - r.headerSize = r.data.size := by
    rw [size_bytes, Nat.add_sub_cancel_left]
  -- each part is cut out where it was put
  have herror : r.bytes.extract headSize r.headerSize = r.error := extract_fields size_fixedHead
  have hdata : r.bytes.extract r.headerSize r.bytes.size = r.data := by
    rw [size_bytes]
    exact extract_data size_fixedHead
  have hcodes : codesAt r.bytes = r.codes := codesAt_fixedHead
  rw [standing, hheader, hbody, herror, hdata, hcodes]
  rfl

/-- What was written is read back, with lengths that were computed anew. -/
theorem decode_bytes (hh : r.headerSize < UInt32.size) (hb : r.data.size < UInt32.size) :
    decode r.bytes = .ok r.withLengths := by
  obtain ⟨hlengths, -⟩ := headerLength_eq_ok.mp (headerLength_fixedHead hh hb)
  exact decode_eq_ok.mpr ⟨hlengths, (standing_bytes hh).symm⟩

/-- A frame with true lengths is what is written of the response that stands in it. -/
theorem encode_standing (hhead : headSize ≤ bigEndianAt bs 0 4)
    (hsize : bigEndianAt bs 0 4 ≤ bs.size)
    (hbody : bigEndianAt bs 4 4 = bs.size - bigEndianAt bs 0 4) :
    (standing bs).encode = .ok bs := by
  have hheader : (standing bs).headerSize = bigEndianAt bs 0 4 := by
    rw [headerSize, standing, ByteArray.size_extract, Nat.min_eq_left hsize]
    exact Nat.add_sub_cancel' hhead
  have hdata : (standing bs).data.size = bigEndianAt bs 4 4 := by
    rw [hbody, standing, ByteArray.size_extract, Nat.min_self]
  -- both lengths were read from words, so they fit
  refine encode_eq_ok.mpr ⟨?_, ?_, ?_⟩
  · rw [hheader]
    exact bigEndianAt_lt
  · rw [hdata]
    exact bigEndianAt_lt
  · -- the head, the error and the data are cut where they meet
    have hfixed : (fixedHead (.ofNat (bigEndianAt bs 0 4)) (.ofNat (bigEndianAt bs 4 4))
        (standing bs).codes).toByteArray = bs.extract 0 headSize :=
      fixedHead_eq_extract (Nat.le_trans hhead hsize)
    rw [bytes, hheader, hdata, hfixed, standing, ByteArray.extract_append_extract,
      Nat.min_eq_left hhead, Nat.max_eq_right hsize, extract_append_rest]

/-- Whatever lengths a response has kept, it is written exactly if its true lengths fit their words,
and reads back with them. A byte string is read as a response exactly if both of its lengths are
true, and is then what is written of that response. All others break the protocol. -/
theorem codec_bijective :
    (∀ r : Response, (∃ bs, r.encode = .ok bs ∧ decode bs = .ok r.withLengths) ↔
      r.headerSize < UInt32.size ∧ r.data.size < UInt32.size) ∧
    ∀ bs, ((∃ r, decode bs = .ok r) ↔
        headSize ≤ bs.size ∧ headSize ≤ bigEndianAt bs 0 4 ∧ bigEndianAt bs 0 4 ≤ bs.size ∧
          bigEndianAt bs 4 4 = bs.size - bigEndianAt bs 0 4) ∧
      (∀ r, decode bs = .ok r → r.encode = .ok bs) ∧
      ((∃ r, decode bs = .ok r) ∨ ∃ e, decode bs = .error e ∧ e.kind = .protocol) := by
  constructor
  · intro r
    constructor
    · rintro ⟨bs, h, -⟩
      obtain ⟨hh, hb, -⟩ := encode_eq_ok.mp h
      exact ⟨hh, hb⟩
    · rintro ⟨hh, hb⟩
      exact ⟨_, encode_eq_ok.mpr ⟨hh, hb, rfl⟩, decode_bytes hh hb⟩
  · intro bs
    refine ⟨⟨?_, fun h => ?_⟩, fun r h => ?_, ?_⟩
    · rintro ⟨r, h⟩
      obtain ⟨⟨hhead, hsize, hbody⟩, -⟩ := decode_eq_ok.mp h
      exact ⟨Nat.le_trans hhead hsize, hhead, hsize, hbody⟩
    · exact ⟨_, decode_eq_ok.mpr ⟨h.2, rfl⟩⟩
    · obtain ⟨⟨hhead, hsize, hbody⟩, rfl⟩ := decode_eq_ok.mp h
      exact encode_standing hhead hsize hbody
    · cases h : decode bs with
      | ok r => exact .inl ⟨r, rfl⟩
      | error e => exact .inr ⟨e, rfl, kind_of_decode h⟩

end RemoteCall.Response
