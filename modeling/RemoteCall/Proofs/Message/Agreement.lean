import RemoteCall.Proofs.Message.Faults
import RemoteCall.Proofs.Message.Pieces
import RemoteCall.Proofs.Message.Response

/-! The reader of frames and the readers of messages agree.

The first one looks at the two lengths before the bytes are there, the others when they have all of
them, each with tests of its own. Yet what the one yields the others find to be whole, and what they
take the one yields. -/
namespace RemoteCall.Stream
variable {f : ByteArray}

/-- Two lengths that give the size of the whole are the ones that messages are read with. -/
theorem isFrame_iff_headerLength : IsFrame f ↔ headerLength f = .ok (bigEndianAt f 0 4) := by
  rw [headerLength_eq_ok]
  constructor
  · intro h
    have hhead := h.headSize_le
    have hsize := h.size_eq
    refine ⟨⟨hhead, ?_, ?_⟩, rfl⟩
    · omega
    · omega
  · intro h
    obtain ⟨⟨hhead, hsize, hbody⟩, -⟩ := h
    refine ⟨hhead, ?_⟩
    omega

theorem isFrame_of_response {r : Response} (h : Response.decode f = .ok r) : IsFrame f := by
  obtain ⟨hlengths, -⟩ := Response.decode_eq_ok.mp h
  exact isFrame_iff_headerLength.mpr (headerLength_eq_ok.mpr ⟨hlengths, rfl⟩)

theorem isFrame_of_request {r : Request} (h : Request.decode f = .ok r) : IsFrame f := by
  obtain ⟨l, hl, -⟩ := Request.decode_eq_ok.mp h
  have hlengths := And.intro hl.headSize_le (And.intro hl.le_size hl.body_eq)
  exact isFrame_iff_headerLength.mpr (headerLength_eq_ok.mpr ⟨hlengths, rfl⟩)

/-- Every reader of messages takes the lengths of the frame: a response is read and gives the frame
back, and only the texts of its header can keep the frame from being a request. -/
structure IsRead (f : ByteArray) : Prop where
  lengths : headerLength f = .ok (bigEndianAt f 0 4)
  response : ∃ r, Response.decode f = .ok r ∧ r.encode = .ok f
  request : (∃ r, Request.decode f = .ok r) ∨ ∃ m, Request.decode f = .error m.toError ∧
    Request.HeaderFault (f.extract headSize (bigEndianAt f 0 4)).data.toList m

/-- Whatever has the lengths of a frame is read by every reader, or refused for its texts. -/
theorem isRead_of_isFrame (h : IsFrame f) : IsRead f := by
  have hlength := isFrame_iff_headerLength.mp h
  obtain ⟨⟨hhead, hsize, hbody⟩, -⟩ := headerLength_eq_ok.mp hlength
  refine ⟨hlength, ⟨Response.standing f, ?_, ?_⟩, ?_⟩
  · exact Response.decode_eq_ok.mpr ⟨⟨hhead, hsize, hbody⟩, rfl⟩
  · exact Response.encode_standing hhead hsize hbody
  · cases hd : Request.decode f with
    | ok r => exact .inl ⟨r, rfl⟩
    | error e =>
      obtain ⟨m, hm, rfl⟩ := mapError_eq_error.mp hd
      refine .inr ⟨m, rfl, ?_⟩
      -- the lengths have been found true, so the fault is one of the texts
      rcases Request.decode?_eq_error hm with hm | ⟨n, hn, hfault⟩
      · cases hlength.symm.trans hm
      · cases hlength.symm.trans hn
        exact hfault

/-- The frame is read whole wherever it comes first, and the reading goes on right behind it. -/
structure IsYielded (f : ByteArray) : Prop where
  stream : ∀ t, readFrame (f ++ t) 0 = .ok (f, f.size)
  pieces : ∀ pieces t, joined pieces = f ++ t → ∃ rest, nextFrame pieces = .ok (f, rest) ∧
    joined rest = t

/-- A frame that is not too large is read whole in front of anything else. -/
theorem isYielded_of_isFrame (h : IsFrame f) (hm : f.size ≤ maxFrame) : IsYielded f where
  stream t := by rw [readFrame_append h, if_neg (Nat.not_lt.mpr hm)]
  pieces pieces t hpieces :=
    nextFrame_of_splitFrame ((congrArg splitFrame hpieces).trans (splitFrame_append h hm))

/-- A frame that is too large is never read. -/
theorem size_le_of_readFrame {stream : ByteArray} {start next : Nat}
    (h : readFrame stream start = .ok (f, next)) : f.size ≤ maxFrame := by
  unfold readFrame at h
  dsimp only at h
  split_ifs at h with hend hhead hmax hfit
  obtain ⟨rfl, -⟩ := Prod.mk.inj (Except.ok.inj h)
  rw [ByteArray.size_extract]
  omega

/-- Whatever is read from a stream as a frame has lengths that every reader of messages takes: it is
a response, which gives the frame back, and it is a request unless the texts of its header are at
fault. And whatever is read as a request or a response is yielded whole from a stream, if it is no
longer than a frame may be. -/
theorem readers_agree (f : ByteArray) :
    (∀ stream start next, readFrame stream start = .ok (f, next) → f.size ≤ maxFrame ∧ IsRead f) ∧
    (∀ pieces rest, nextFrame pieces = .ok (f, rest) → f.size ≤ maxFrame ∧ IsRead f) ∧
    (f.size ≤ maxFrame →
      (∃ r, Request.decode f = .ok r) ∨ (∃ r, Response.decode f = .ok r) → IsYielded f) := by
  refine ⟨fun stream start next h => ?_, fun pieces rest h => ?_, fun hm h => ?_⟩
  · obtain ⟨hframe, -, -⟩ := consumes_of_readFrame h
    exact ⟨size_le_of_readFrame h, isRead_of_isFrame hframe⟩
  · obtain ⟨hframe, hm, -⟩ := begins_of_nextFrame h
    exact ⟨hm, isRead_of_isFrame hframe⟩
  · rcases h with ⟨r, hr⟩ | ⟨r, hr⟩
    · exact isYielded_of_isFrame (isFrame_of_request hr) hm
    · exact isYielded_of_isFrame (isFrame_of_response hr) hm

end RemoteCall.Stream
