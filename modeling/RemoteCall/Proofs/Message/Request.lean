import RemoteCall.Context.Basic
import RemoteCall.Proofs.Message.Layout
import RemoteCall.Proofs.Message.Stream

/-! A request that can be written is read back as it was, with its true lengths. -/
namespace RemoteCall.Request
variable {r : Request} {bs : ByteArray} {e : Error}

def IsWritable (r : Request) : Prop :=
  IsPlain r.service ∧ IsPlain r.method ∧ PlainEntries r.metadata.entries

theorem checkFields_eq_ok : r.checkFields = .ok () ↔ r.IsWritable := by
  simp only [checkFields, seq_eq_ok, checkField_eq_ok, checkEntries_eq_ok, IsWritable]

theorem kind_of_checkFields (h : r.checkFields = .error e) : e.kind = .encode := by
  rw [checkFields, bind_eq_error] at h
  rcases h with h | ⟨_, -, h⟩
  · exact kind_of_checkField h
  · rcases bind_eq_error.mp h with h | ⟨_, -, h⟩
    · exact kind_of_checkField h
    · exact kind_of_checkEntries h

def bytes (r : Request) : ByteArray :=
  (fixedHead (.ofNat r.headerSize) (.ofNat r.data.size) r.codes).toByteArray ++
    (r.fieldBytes.toByteArray ++ r.data)

/-- A request is written just if its texts can stand in a header and its lengths take 32 bits. -/
theorem encode_eq_ok : r.encode = .ok bs ↔ r.IsWritable ∧ r.headerSize < UInt32.size ∧
    r.data.size < UInt32.size ∧ bs = r.bytes := by
  have hbytes : (fixedHead (.ofNat r.headerSize) (.ofNat r.data.size) r.codes ++
      r.fieldBytes).toByteArray ++ r.data = r.bytes := by
    rw [List.toByteArray_append, ByteArray.append_assoc, bytes]
  rw [encode, seq_eq_ok, checkFields_eq_ok, bind_eq_ok]
  constructor
  · rintro ⟨hr, w, hw, hbs⟩
    obtain ⟨hh, hb, rfl⟩ := lengthWords_eq_ok.mp hw
    exact ⟨hr, hh, hb, (Except.ok.inj hbs).symm.trans hbytes⟩
  · rintro ⟨hr, hh, hb, rfl⟩
    exact ⟨hr, _, lengthWords_eq_ok.mpr ⟨hh, hb, rfl⟩, congrArg _ hbytes⟩

theorem kind_of_encode (h : r.encode = .error e) : e.kind = .encode := by
  rw [encode, bind_eq_error] at h
  rcases h with h | ⟨_, -, h⟩
  · exact kind_of_checkFields h
  · rcases bind_eq_error.mp h with h | ⟨_, -, h⟩
    · exact kind_of_lengthWords h
    · cases h

theorem foldl_entrySize (l : List (String × String)) (n : Nat) :
    l.foldl (fun n e => n + (e.1.utf8ByteSize + 1 + e.2.utf8ByteSize + 1)) n =
      n + (l.flatMap entryBytes).length := by
  -- on the entries, for any size so far
  induction l generalizing n with
  | nil => rfl
  | cons e rest ih =>
    have he : (entryBytes e).length = e.1.utf8ByteSize + 1 + e.2.utf8ByteSize + 1 := by
      simp only [entryBytes, List.length_append, List.length_cons, List.length_nil, length_utf8]
      omega
    rw [List.foldl_cons, ih, List.flatMap_cons, List.length_append, he]
    omega

/-- The computed size of the header is what its bytes take. -/
theorem size_fieldBytes : headSize + r.fieldBytes.toByteArray.size = r.headerSize := by
  rw [headerSize, foldl_entrySize, List.size_toByteArray, fieldBytes]
  simp only [List.length_append, List.length_cons, length_utf8]
  omega

theorem size_bytes : r.bytes.size = r.headerSize + r.data.size := by
  rw [bytes, ByteArray.size_append, ByteArray.size_append, size_fixedHead, ← size_fieldBytes]
  omega

theorem isFrame_bytes (hh : r.headerSize < UInt32.size) (hb : r.data.size < UInt32.size) :
    Stream.IsFrame r.bytes := by
  rw [← size_fieldBytes] at hh
  rw [bytes, ← size_fieldBytes]
  exact Stream.isFrame_fixedHead hh hb

def layout (r : Request) : Layout := ⟨r.service, r.method, r.metadata.entries⟩

theorem IsWritable.isReadable (h : r.IsWritable) : r.layout.IsReadable where
  service := h.1.1
  method := h.2.1.1
  entries e he :=
    have hplain := h.2.2 e he
    ⟨hplain.1.1, hplain.1.2, hplain.2.1⟩
  keys := r.metadata.nodup_keys

/-- The bytes of a request are laid out as its own texts. -/
theorem fits_bytes (h : r.IsWritable) (hh : r.headerSize < UInt32.size)
    (hb : r.data.size < UInt32.size) : r.layout.Fits r.bytes := by
  have hlength : headerLength r.bytes = .ok r.headerSize := by
    have hfields := size_fieldBytes (r := r)
    rw [← hfields] at hh
    rw [bytes, ← hfields]
    exact headerLength_fixedHead hh hb
  obtain ⟨⟨hhead, hsize, hbody⟩, heq⟩ := headerLength_eq_ok.mp hlength
  refine ⟨hhead, hsize, hbody, ?_, h.isReadable⟩
  have hfields : r.bytes.extract headSize r.headerSize = r.fieldBytes.toByteArray := by
    rw [bytes, ← size_fieldBytes]
    exact extract_fields size_fixedHead
  rw [← heq, hfields, List.data_toByteArray]
  rfl

theorem request_bytes (hh : r.headerSize < UInt32.size) :
    r.layout.request r.bytes = r.withLengths := by
  have hheader : bigEndianAt r.bytes 0 4 = r.headerSize := by
    rw [bytes, header_fixedHead, UInt32.toNat_ofNat_of_lt' hh]
  have hbody : r.bytes.size - r.headerSize = r.data.size := by
    rw [size_bytes, Nat.add_sub_cancel_left]
  have hdata : r.bytes.extract r.headerSize r.bytes.size = r.data := by
    rw [size_bytes, bytes, ← size_fieldBytes]
    exact extract_data size_fixedHead
  have hcodes : codesAt r.bytes = r.codes := codesAt_fixedHead
  have hmetadata : KeyMap.ofList r.layout.entries = r.metadata := r.metadata.ofList_entries
  rw [Layout.request, hheader, hbody, hdata, hcodes, hmetadata]
  rfl

/-- What was written is read back, with lengths that were computed anew. -/
theorem decode_bytes (h : r.IsWritable) (hh : r.headerSize < UInt32.size)
    (hb : r.data.size < UInt32.size) : decode r.bytes = .ok r.withLengths :=
  decode_eq_ok.mpr ⟨r.layout, fits_bytes h hh hb, (request_bytes hh).symm⟩

/-- The request is as the last change of its header or data left it, up to its id and codes. -/
inductive Built : Request → Prop
  | new (service method : String) : Built (new service method)
  | withMetadata (r : Request) (key value : String) : Built (r.withMetadata key value)
  | withData (r : Request) (data : ByteArray) : Built (r.withData data)
  | setDeadline (r : Request) (nanos : Int) : Built (r.setDeadline nanos)
  | applyTo (c : Context) (clock : Clock) (r r' : Request) (h : c.applyTo clock r = some r') :
    Built r'
  | withMessageId (r : Request) (id : UInt32) (h : Built r) : Built (r.withMessageId id)
  | withCodes (r : Request) (serializer : SerializeType) (compressor : CompressType) (h : Built r) :
    Built (r.withCodes serializer compressor)

theorem Built.withLengths_eq (h : r.Built) : r.withLengths = r := by
  induction h with
  | new service method => rfl
  | withMetadata r key value => rfl
  | withData r data => rfl
  | setDeadline r nanos => rfl
  | applyTo c clock r r' h =>
    cases hd : c.deadline with
    | none =>
      simp only [Context.applyTo, hd] at h
      obtain rfl := Option.some.inj h
      rfl
    | some t =>
      simp only [Context.applyTo, hd] at h
      obtain ⟨wall, -, rfl⟩ := Option.map_eq_some_iff.mp h
      rfl
  | withMessageId r id h ih =>
    exact congrArg (fun r : Request => r.withMessageId id) ih
  | withCodes r serializer compressor h ih =>
    exact congrArg (fun r : Request => r.withCodes serializer compressor) ih

/-- Whatever lengths a request has kept, it is written exactly if no text of its header holds a
separator and its true lengths fit their words, and what is written reads back as the request with
its true lengths. -/
theorem decode_encode (r : Request) :
    ((∃ bs, r.encode = .ok bs) ↔
      r.IsWritable ∧ r.headerSize < UInt32.size ∧ r.data.size < UInt32.size) ∧
    (∀ e, r.encode = .error e → e.kind = .encode) ∧
    ∀ bs, r.encode = .ok bs → bs.size = r.headerSize + r.data.size ∧
      decode bs = .ok r.withLengths ∧ (r.Built → decode bs = .ok r) := by
  refine ⟨⟨fun ⟨bs, h⟩ => ?_, fun ⟨hr, hh, hb⟩ => ?_⟩, fun e => kind_of_encode, fun bs h => ?_⟩
  · obtain ⟨hr, hh, hb, -⟩ := encode_eq_ok.mp h
    exact ⟨hr, hh, hb⟩
  · exact ⟨_, encode_eq_ok.mpr ⟨hr, hh, hb, rfl⟩⟩
  · obtain ⟨hr, hh, hb, rfl⟩ := encode_eq_ok.mp h
    have hd := decode_bytes hr hh hb
    exact ⟨size_bytes, hd, fun hbuilt => by rw [hd, hbuilt.withLengths_eq]⟩

end RemoteCall.Request
