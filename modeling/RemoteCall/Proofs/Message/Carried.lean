import RemoteCall.Payload
import RemoteCall.Proofs.Gzip.Written
import RemoteCall.Proofs.Message.Pieces
import RemoteCall.Proofs.Message.Request
import RemoteCall.Proofs.Message.Response

/-! Messages from end to end: what one side packs, encodes and writes, the other side reads, decodes
and unpacks. A frame may have at most the largest size, and so may a payload that is packed. -/
namespace RemoteCall

namespace CompressType
variable {payload packed : ByteArray}

/-- What a writer may make of a payload: the payload, or a container of it. -/
def Packs : CompressType → (payload packed : ByteArray) → Prop
  | none, payload, packed => packed = payload
  | gzip, payload, packed => Gzip.Holds packed payload

/-- Every payload can be packed. -/
theorem exists_packs [Gzip.Encoder] [Gzip.LawfulEncoder] (c : CompressType) (payload : ByteArray) :
    ∃ packed, c.compress payload = .ok packed ∧ c.Packs payload packed := by
  cases c with
  | none => exact ⟨payload, rfl, rfl⟩
  | gzip => exact Gzip.LawfulEncoder.holds payload

/-- A payload is restored unless it was packed and is larger than a frame may be. -/
theorem decompress_of_packs {c : CompressType} (h : c.Packs payload packed) :
    c.decompress packed = if c = gzip ∧ Stream.maxFrame < payload.size then
      .error ⟨.compress, s!"payload inflates beyond {Stream.maxFrame} bytes"⟩ else .ok payload := by
  cases c with
  | none =>
    rw [if_neg (fun hc => nomatch hc.1)]
    exact congrArg Except.ok h
  | gzip =>
    rw [decompress, Gzip.Holds.decompress h]
    by_cases hsize : payload.size ≤ Stream.maxFrame
    · rw [if_pos hsize, if_neg fun hc => absurd hsize (Nat.not_le.mpr hc.2)]
    · rw [if_neg hsize, if_pos ⟨rfl, Nat.not_le.mp hsize⟩]

end CompressType

namespace Stream
variable {f : ByteArray} {frames : List ByteArray} {pipe : Pipe}

/-- A pipe whose reading end stays open accepts all that is written. -/
theorem writeAll_of_open (h : pipe.keeps = none) (written : Nat) :
    pipe.writeAll written frames = frames.map fun _ => true := by
  induction frames generalizing written with
  | nil => rfl
  | cons f frames ih =>
    have haccepts : pipe.accepts written f.size = true := by
      rw [Pipe.accepts, Pipe.room, h]
      exact Bool.or_true _
    rw [Pipe.writeAll, haccepts, ih, List.map_cons]

theorem foldl_append (out : ByteArray) : frames.foldl (· ++ ·) out = out ++ joined frames := by
  induction frames generalizing out with
  | nil => rw [List.foldl_nil, joined, ByteArray.append_empty]
  | cons f frames ih => rw [List.foldl_cons, ih, joined, ByteArray.append_assoc]

theorem received_of_open (h : pipe.keeps = none) : pipe.received frames = joined frames := by
  rw [Pipe.received, h, foldl_append, ByteArray.empty_append]

theorem joined_append {frames others : List ByteArray} :
    joined (frames ++ others) = joined frames ++ joined others := by
  induction frames with
  | nil => rw [List.nil_append, joined, ByteArray.empty_append]
  | cons f frames ih => rw [List.cons_append, joined, ih, joined, ByteArray.append_assoc]

/-- A frame that is written to a pipe, among others, is accepted, and comes out at the other end as
it was written. It is refused there if it is too large. -/
def Delivered (f : ByteArray) : Prop :=
  ∀ (pipe : Pipe) (before after : List ByteArray), pipe.keeps = none →
    pipe.writeAll 0 (before ++ f :: after) = (before ++ f :: after).map (fun _ => true) ∧
    readFrame (pipe.received (before ++ f :: after)) (joined before).size =
      if maxFrame < f.size then .error .tooLong else .ok (f, (joined before).size + f.size)

/-- Whatever has the lengths of a frame is delivered if it is not too large. -/
theorem delivered_of_isFrame (h : IsFrame f) : Delivered f := by
  intro pipe before after hopen
  refine ⟨writeAll_of_open hopen 0, ?_⟩
  have hright := @readFrame_append_right (joined before) (joined (f :: after)) 0
  rw [Nat.add_zero, joined, readFrame_append h] at hright
  rw [received_of_open hopen, joined_append, joined, hright]
  split <;> rfl

/-- What a sender can pack, encode and write, the receiver reads, decodes and unpacks, whatever
container of the payload was packed. Only a frame above the largest size is refused on reading, and
only a payload above it on unpacking. -/
theorem sent_is_read [Gzip.Encoder] [Gzip.LawfulEncoder] (c : CompressType)
    (payload packed : ByteArray) (hpacks : c.Packs payload packed) :
    (∃ written, c.compress payload = .ok written ∧ c.Packs payload written) ∧
    (∀ (r : Request) (bs : ByteArray), ({ r with data := packed } : Request).encode = .ok bs →
      Delivered bs ∧ Request.decode bs = .ok ({ r with data := packed } : Request).withLengths) ∧
    (∀ (r : Response) (bs : ByteArray), ({ r with data := packed } : Response).encode = .ok bs →
      Delivered bs ∧ Response.decode bs = .ok ({ r with data := packed } : Response).withLengths) ∧
    c.decompress packed =
      if c = .gzip ∧ maxFrame < payload.size then
        .error ⟨.compress, s!"payload inflates beyond {maxFrame} bytes"⟩
      else .ok payload := by
  refine ⟨c.exists_packs payload, fun r bs h => ?_, fun r bs h => ?_, c.decompress_of_packs hpacks⟩
  · obtain ⟨hw, hh, hb, rfl⟩ := Request.encode_eq_ok.mp h
    exact ⟨delivered_of_isFrame (Request.isFrame_bytes hh hb), Request.decode_bytes hw hh hb⟩
  · obtain ⟨hh, hb, rfl⟩ := Response.encode_eq_ok.mp h
    exact ⟨delivered_of_isFrame (Response.isFrame_bytes hh hb), Response.decode_bytes hh hb⟩

/-- A response whose payload was packed by a writer that repeats earlier bytes comes behind another
one. -/
theorem sent_is_read_repeated :
    let payload : ByteArray := ⟨Array.replicate 12 97⟩
    let packed : ByteArray :=
      ⟨#[0x1F, 0x8B, 8, 0, 0, 0, 0, 0, 2, 3, 0x4B, 0x4C, 0x44, 0, 0, 0x76, 0x0A, 0xE3,
      0xF6, 12, 0, 0, 0]⟩
    let r : Response := { data := packed }
    let pipe : Pipe := { capacity := 16, keeps := none }
    CompressType.gzip.Packs payload packed ∧ r.encode = .ok r.bytes ∧
      readFrame (pipe.received [r.bytes, r.bytes]) r.bytes.size =
        .ok (r.bytes, r.bytes.size + r.bytes.size) ∧
      Response.decode r.bytes = .ok r.withLengths ∧
      CompressType.gzip.decompress packed = .ok payload := by
  intro payload packed r pipe
  have hpacks : CompressType.gzip.Packs payload packed := ⟨12, by decide +kernel⟩
  have hencode : r.encode = .ok r.bytes := Response.encode_eq_ok.mpr ⟨by decide, by decide, rfl⟩
  obtain ⟨-, -, hresponses, hunpacked⟩ := sent_is_read .gzip payload packed hpacks
  obtain ⟨hdelivered, hdecode⟩ := hresponses {} r.bytes hencode
  have hread := (hdelivered pipe [r.bytes] [] rfl).2
  rw [joined, joined, ByteArray.append_empty, if_neg (by rw [Response.size_bytes]; decide)] at hread
  rw [if_neg (by decide)] at hunpacked
  exact ⟨hpacks, hencode, hread, hdecode, hunpacked⟩

/-- A payload of one byte more than the largest size is sent, but what was sent is not read, and
what was packed is not unpacked. -/
theorem oversized_is_refused :
    let payload : ByteArray := ⟨Array.replicate (maxFrame + 1) 0⟩
    let r : Response := { data := payload }
    r.encode = .ok r.bytes ∧ readFrame r.bytes 0 = .error .tooLong ∧
      ∃ packed, CompressType.gzip.compress payload = .ok packed ∧
        CompressType.gzip.decompress packed =
          .error ⟨.compress, s!"payload inflates beyond {maxFrame} bytes"⟩ := by
  intro payload r
  have hsize : payload.size = maxFrame + 1 := Array.size_replicate
  have hhead : r.headerSize < UInt32.size := by decide
  have hbody : r.data.size < UInt32.size := by
    rw [show r.data.size = maxFrame + 1 from hsize]
    decide
  have hread := @readFrame_append r.bytes .empty (Response.isFrame_bytes hhead hbody)
  rw [ByteArray.append_empty, Response.size_bytes, show r.data.size = maxFrame + 1 from hsize,
    if_pos (by omega)] at hread
  obtain ⟨packed, hpacked, hpacks⟩ := CompressType.gzip.exists_packs payload
  have hunpacked := CompressType.gzip.decompress_of_packs hpacks
  rw [if_pos ⟨rfl, by omega⟩] at hunpacked
  exact ⟨Response.encode_eq_ok.mpr ⟨hhead, hbody, rfl⟩, hread, packed, hpacked, hunpacked⟩

end Stream
end RemoteCall
