import RemoteCall.Proofs.Connection.Serving
import RemoteCall.Proofs.Payload
import RemoteCall.Stub

/-! What a handler hands back arrives: a value alone as the value, an error as its text, and both
halves in the response that carries them. -/
namespace RemoteCall

/-- The text that an error of a handler travels as; empty without one. -/
def Reply.errorText {β : Type} (reply : Reply β) : String := reply.error.elim "" Error.wireText

variable {β : Type} [Decodable β] {serializer : SerializeType}
  {compressor : CompressType} {r : Request}
  {response : Response}

/-- What was handed back can travel, in a frame that is not too large. -/
structure Reply.Travels [Gzip.Encoder] [Encodable β] (serializer : SerializeType)
    (compressor : CompressType) (reply : Reply β) : Prop where
  error : headSize + reply.errorText.utf8ByteSize ≤ Stream.maxFrame
  value : ∀ v, reply.value = some v → ∃ data, RemoteCall.Travels serializer compressor v data ∧
    headSize + reply.errorText.utf8ByteSize + data.size ≤ Stream.maxFrame

/-- How a response, and what a caller makes of it, tell what was handed back. -/
structure Reply.Arrives [Gzip.Encoder] [Encodable β] (serializer : SerializeType)
    (compressor : CompressType) (reply : Reply β) (response : Response) (outcome : Result β) :
    Prop where
  ok_iff : ∀ v, outcome = .ok v ↔ reply = .ofValue v
  failed : ∀ e, reply.error = some e → outcome = .error ⟨.server, e.wireText⟩
  errorText_eq : response.errorText = reply.error.map Error.wireText
  travels : ∀ v, reply.value = some v → RemoteCall.Travels serializer compressor v response.data

structure Response.Sendable (response : Response) (r : Request) : Prop where
  codes_eq : response.codes = r.codes
  withLengths_eq : response.withLengths = response
  size_le : response.headerSize + response.data.size ≤ Stream.maxFrame

theorem Error.wireText_ne_empty (e : Error) : e.wireText ≠ "" := by
  unfold wireText
  split
  · cases e.kind <;> decide
  · rename_i h
    exact fun he => h (String.isEmpty_iff.mpr he)

theorem Response.errorText_withError (text : String) (h : text ≠ "") :
    (response.withError text).errorText = some text := by
  have hne : text.toUTF8.isEmpty = false :=
    beq_false_of_ne fun hsize => h (String.utf8ByteSize_eq_zero_iff.mp hsize)
  have hsome : (response.withError text).hasError = true := congrArg not hne
  rw [errorText, if_pos hsome]
  change some (Utf8.decodeLossy text.toUTF8) = some text
  rw [Utf8.decodeLossy, Request.fromUTF8?_toUTF8]

/-- An error text is all that counts. -/
theorem Response.toResult_withError (text : String) (h : text ≠ "") :
    ((response.withError text).toResult : Result β) = .error ⟨.server, text⟩ := by
  rw [toResult, errorText_withError text h]

/-- The response with what was handed back can be sent and tells all of it. -/
theorem Reply.Travels.arrives [Gzip.Encoder] [Encodable β] {reply : Reply β}
    (h : reply.Travels serializer compressor) (hc : r.codes.Name serializer compressor) :
    ((Response.replyTo r).withReply reply).Sendable r ∧
      reply.Arrives serializer compressor ((Response.replyTo r).withReply reply)
        ((Response.replyTo r).withReply reply).toResult := by
  -- by the halves that there are
  obtain ⟨_ | v, _ | e⟩ := reply
  · refine ⟨⟨rfl, rfl, h.error⟩, fun v => ?_, nofun, rfl, nofun⟩
    obtain ⟨e, he⟩ := r.codes.read_empty (α := β)
    have hresult : ((Response.replyTo r).toResult : Result β) = .error e := he
    change (Response.replyTo r).toResult = .ok v ↔ _
    rw [hresult]
    exact ⟨nofun, nofun⟩
  · have hreply : (Response.replyTo r).withReply (⟨none, some e⟩ : Reply β) =
        (Response.replyTo r).withError e.wireText := rfl
    rw [hreply, Response.toResult_withError e.wireText e.wireText_ne_empty]
    refine ⟨⟨rfl, rfl, h.error⟩, fun v => ⟨nofun, nofun⟩, fun e' he => ?_,
      Response.errorText_withError _ e.wireText_ne_empty, nofun⟩
    cases he
    rfl
  · obtain ⟨data, htravels, hsize⟩ := h.value v rfl
    have hreply : (Response.replyTo r).withReply ⟨some v, none⟩ =
        (Response.replyTo r).withData data := by
      have hwrite : (Response.replyTo r).codes.write v = .ok data := htravels.write hc
      simp only [Response.withReply, Option.map_some, hwrite]
    rw [hreply]
    have hresult : (((Response.replyTo r).withData data).toResult : Result β) = .ok v :=
      htravels.read hc
    rw [hresult]
    refine ⟨⟨rfl, rfl, hsize⟩, fun w => ?_, nofun, rfl, fun w hw => ?_⟩
    · rw [Except.ok.injEq, Reply.ofValue, Reply.mk.injEq, Option.some.injEq]
      exact ⟨fun hv => ⟨hv, rfl⟩, And.left⟩
    · cases hw
      exact htravels
  · obtain ⟨data, htravels, hsize⟩ := h.value v rfl
    have hreply : (Response.replyTo r).withReply ⟨some v, some e⟩ =
        ((Response.replyTo r).withData data).withError e.wireText := by
      have hwrite : (Response.replyTo r).codes.write v = .ok data := htravels.write hc
      simp only [Response.withReply, Option.map_some, hwrite]
    rw [hreply, Response.toResult_withError e.wireText e.wireText_ne_empty]
    refine ⟨⟨rfl, rfl, hsize⟩, fun v => ⟨nofun, nofun⟩, fun e' he => ?_,
      Response.errorText_withError _ e.wireText_ne_empty, fun w hw => ?_⟩
    · cases he
      rfl
    · cases hw
      exact htravels

end RemoteCall
