import RemoteCall.Proofs.Message.Request
import RemoteCall.Proofs.Message.Response
import RemoteCall.Proofs.Work
import RemoteCall.Server.Serving

/-! What a peer writes for a frame: nothing if nobody waits, or the bytes of a response to it. -/
namespace RemoteCall
variable {r : Request} {frame : ByteArray} {h : Handled}

/-- The peer handles a frame as a server does whose services answer with the id of the request. It
may also end the connection instead. -/
inductive Serves (frame : ByteArray) : Handled → Prop
  | ends : Serves frame { ends := true }
  | replies (request : Request) (response : Response) (hd : Request.decode frame = .ok request)
    (hid : response.codes.messageId = request.codes.messageId) :
    Serves frame (.reply request response)

/-- Nothing is written for a request whose sender does not wait. -/
theorem Serves.written_of_oneway (hs : Serves frame h) (hd : Request.decode frame = .ok r)
    (hr : r.isOneway = true) : h.written = .empty := by
  cases hs with
  | ends => rfl
  | replies request response hd' hid =>
    obtain rfl := Except.ok.inj (hd'.symm.trans hd)
    rw [Handled.reply, if_pos hr]

/-- A response with an id is a frame that reads back with this id. -/
def IsResponse (id : UInt32) (bytes : ByteArray) : Prop :=
  Stream.IsFrame bytes ∧ ∃ response, Response.decode bytes = .ok response ∧
    response.codes.messageId = id

theorem isResponse_encode {response : Response} {bytes : ByteArray}
    (h : response.encode = .ok bytes) : IsResponse response.codes.messageId bytes := by
  obtain ⟨hh, hb, rfl⟩ := Response.encode_eq_ok.mp h
  exact ⟨Response.isFrame_bytes hh hb, _, Response.decode_bytes hh hb, rfl⟩

theorem isResponse_bytes? {response : Response} {bytes : ByteArray}
    (hb : response.bytes? r = some bytes) (hid : response.codes.messageId = r.codes.messageId) :
    IsResponse r.codes.messageId bytes := by
  unfold Response.bytes? at hb
  split at hb
  · rename_i hok
    cases hb
    exact hid ▸ isResponse_encode hok
  · rename_i e he
    cases hf : (Response.failed r e).encode with
    | ok bs =>
      rw [hf] at hb
      cases hb
      exact isResponse_encode hf
    | error e' =>
      rw [hf] at hb
      cases hb

/-- For any other request one response under its number is written, or nothing. -/
theorem Serves.written_of_twoway (hs : Serves frame h) (hd : Request.decode frame = .ok r)
    (hr : r.isOneway = false) : h.written = .empty ∨ IsResponse r.codes.messageId h.written := by
  cases hs with
  | ends => exact .inl rfl
  | replies request response hd' hid =>
    obtain rfl := Except.ok.inj (hd'.symm.trans hd)
    rw [Handled.reply, if_neg (by simp [hr])]
    cases hb : response.bytes? request with
    | none => exact .inl rfl
    | some bytes => exact .inr (isResponse_bytes? hb hid)

section
variable {σ α β : Type} {P : σ → Prop} {handler : Handler (Work σ)} {method : Method (Work σ)}
  {cancels : Cancels}

def Method.Echoes (method : Method (Work σ)) (P : σ → Prop) : Prop :=
  ∀ context request, (method context request).Keeps P fun response =>
    response.codes.messageId = request.codes.messageId

def Handler.Echoes (handler : Handler (Work σ)) (P : σ → Prop) : Prop :=
  ∀ context request, (handler context request).Keeps P fun outcome =>
    ∀ response, outcome = .ok response → response.codes.messageId = request.codes.messageId

theorem Response.codes_withReply [Gzip.Encoder] [Encodable α] (response : Response)
    (reply : Reply α) : (response.withReply reply).codes = response.codes := by
  unfold withReply
  split <;> rfl

/-- What a handler hands back goes out under the id of the request. -/
theorem Service.echoes_replying [Gzip.Encoder] [Decodable α] [Encodable β]
    {run : Context → α → Work σ (Reply β)}
    (hrun : ∀ context a, (run context a).Keeps P fun _ => True) :
    (replying run : Method (Work σ)).Echoes P := by
  intro context request
  unfold replying
  split
  · exact Work.keeps_pure rfl
  · refine Work.keeps_bind (hrun context _) fun reply _ => Work.keeps_pure ?_
    rw [Response.codes_withReply]
    rfl

/-- Services that answer under the number of the request make a handler that does. -/
theorem Dispatcher.echoes_handler {d : Dispatcher (Work σ)}
    (hd : ∀ request method, d.method? request = .ok method → method.Echoes P) :
    d.handler.Echoes P := by
  intro context request
  have hdispatch : (d.dispatch context request).Keeps P fun response =>
      response.codes.messageId = request.codes.messageId := by
    unfold dispatch
    split
    · exact Work.keeps_pure rfl
    · rename_i method hm
      exact hd request method hm context request
  refine Work.keeps_bind hdispatch fun response hid => Work.keeps_pure fun response' h => ?_
  cases h
  exact hid

theorem Handler.keeps_respond {request : Request} (hh : handler.Echoes P) :
    (handler.respond cancels request).Keeps P fun response =>
      response.codes.messageId = request.codes.messageId := by
  refine .clock _ fun now => ?_
  refine Work.keeps_bind (Work.keeps_bound (hh _ request) nofun) fun outcome ho => ?_
  cases outcome with
  | ok response => exact Work.keeps_pure (ho response rfl)
  | error e => exact Work.keeps_pure rfl

/-- A server serves frames if its handler answers under the ids of requests. -/
theorem Handler.keeps_serveFrame (hh : handler.Echoes P) :
    (handler.serveFrame cancels frame).Keeps P (Serves frame) := by
  unfold serveFrame
  split
  · exact Work.keeps_pure .ends
  · rename_i request hd
    refine Work.keeps_bind (keeps_respond hh) fun response hid => Work.keeps_pure ?_
    exact .replies request response hd hid

/-- A server is a peer that serves. -/
theorem Server.keeps_peer {s : Server σ} {origin : PeerAddress} (hh : s.handler.Echoes P) :
    (s.peer cancels origin frame).Keeps P (Serves frame) := by
  unfold Server.peer
  split
  · exact Handler.keeps_serveFrame hh
  · exact Work.keeps_pure .ends

end

end RemoteCall
