import RemoteCall.Payload.Coded
import RemoteCall.Proofs.Data.Outcome

/-! Values that travel as payloads: one side writes them with the codes of a frame, the other reads
them. -/
namespace RemoteCall
variable {α : Type} {serializer : SerializeType} {compressor : CompressType} {codes : Codes} {a : α}
  {data : ByteArray}

/-- The value is written as this payload and read back from it, by the serializer as by the
compressor. -/
def Travels [Gzip.Encoder] [Encodable α] [Decodable α] (serializer : SerializeType)
    (compressor : CompressType) (a : α) (data : ByteArray) : Prop :=
  ∃ plain, serializer.encode a = .ok plain ∧ compressor.compress plain = .ok data ∧
    compressor.decompress data = .ok plain ∧ serializer.decode plain = .ok a

structure Codes.Name (codes : Codes) (serializer : SerializeType) (compressor : CompressType) :
    Prop where
  serializer_eq : codes.serializer = serializer.code
  compressor_eq : codes.compressor = compressor.code

theorem SerializeType.ofCode_code (t : SerializeType) : ofCode t.code = .ok t := by cases t <;> rfl

theorem CompressType.ofCode_code (t : CompressType) : ofCode t.code = .ok t := by cases t <;> rfl

theorem Travels.write [Gzip.Encoder] [Encodable α] [Decodable α]
    (h : Travels serializer compressor a data) (hc : codes.Name serializer compressor) :
    codes.write a = .ok data := by
  obtain ⟨plain, hencode, hcompress, -, -⟩ := h
  rw [Codes.write, hc.serializer_eq, hc.compressor_eq, SerializeType.ofCode_code,
    CompressType.ofCode_code]
  exact bind_eq_ok.mpr ⟨serializer, rfl, bind_eq_ok.mpr ⟨plain, hencode, bind_eq_ok.mpr
    ⟨compressor, rfl, hcompress⟩⟩⟩

theorem Travels.read [Gzip.Encoder] [Encodable α] [Decodable α]
    (h : Travels serializer compressor a data) (hc : codes.Name serializer compressor) :
    codes.read data = .ok a := by
  obtain ⟨plain, -, -, hdecompress, hdecode⟩ := h
  rw [Codes.read, hc.serializer_eq, hc.compressor_eq, SerializeType.ofCode_code,
    CompressType.ofCode_code]
  exact bind_eq_ok.mpr ⟨compressor, rfl, bind_eq_ok.mpr ⟨plain, hdecompress, hdecode⟩⟩

theorem Json.read?_empty : read? .empty = none := by
  have htokens : tokens [] ByteArray.empty.data.toList = some [] := by
    rw [show ByteArray.empty.data.toList = [] from rfl, tokens]
    rfl
  rw [read?, htokens]
  rfl

theorem MessagePack.read?_empty : read? .empty = none := by
  rw [read?, show ByteArray.empty.data.toList = [] from rfl, readValue]
  · rfl
  · intro h
    cases h

/-- No serializer reads a value where there is nothing. -/
theorem SerializeType.decode_empty [Decodable α] (t : SerializeType) :
    ∃ e, (t.decode .empty : Result α) = .error e := by
  cases t with
  | none => exact ⟨_, rfl⟩
  | protoBuffer => exact ⟨_, rfl⟩
  | json =>
    refine ⟨⟨.serialize, PayloadFault.json.message⟩, ?_⟩
    simp only [decode, reader?, Json.read?_empty, Option.bind_none]
  | msgPack =>
    refine ⟨⟨.serialize, PayloadFault.messagePack.message⟩, ?_⟩
    simp only [decode, reader?, MessagePack.read?_empty, Option.bind_none]

/-- Nothing comes of nothing, or it is no payload at all. -/
theorem CompressType.decompress_empty (t : CompressType) :
    t.decompress .empty = .ok .empty ∨ ∃ e, t.decompress .empty = .error e := by
  cases t with
  | none => exact .inl rfl
  | gzip => exact .inr ⟨_, rfl⟩

/-- Where nothing came, nothing is read. -/
theorem Codes.read_empty [Decodable α] (codes : Codes) :
    ∃ e, (codes.read .empty : Result α) = .error e := by
  rw [read]
  cases CompressType.ofCode codes.compressor with
  | error e => exact ⟨e, rfl⟩
  | ok compressor =>
    obtain hempty | ⟨e, he⟩ := compressor.decompress_empty
    · have hread : ∃ e,
          ((do (← SerializeType.ofCode codes.serializer).decode .empty) : Result α) = .error e := by
        cases SerializeType.ofCode codes.serializer with
        | error e => exact ⟨e, rfl⟩
        | ok serializer => exact serializer.decode_empty
      obtain ⟨e, he⟩ := hread
      exact ⟨e, bind_eq_error.mpr
        (.inr ⟨compressor, rfl, bind_eq_error.mpr (.inr ⟨_, hempty, he⟩)⟩)⟩
    · exact ⟨e, bind_eq_error.mpr (.inr ⟨compressor, rfl, bind_eq_error.mpr (.inl he)⟩)⟩

end RemoteCall
