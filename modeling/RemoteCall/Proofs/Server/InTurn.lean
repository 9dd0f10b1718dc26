import RemoteCall.Gzip.Stored
import RemoteCall.Proofs.Server.Answers
import RemoteCall.Server.Arriving
import RemoteCall.Message.Pieces

/-! A connection is served in order: the requests in front of the first frame that is none are
handled one after the other, and each one that waits for an answer gets one. -/
namespace RemoteCall

def Request.leading : List ByteArray → List Request
  | [] => []
  | frame :: rest =>
    match Request.decode frame with
    | .error _ => []
    | .ok request => request :: leading rest

/-- A request that was written comes in front. -/
theorem Request.leading_append {request : Request} {rest : ByteArray} (hw : request.IsWritable)
    (hlengths : request.withLengths = request)
    (hsize : request.headerSize + request.data.size ≤ Stream.maxFrame) :
    leading (Stream.readAll (request.bytes ++ rest)).1 =
      request :: leading (Stream.readAll rest).1 := by
  have hmax : request.bytes.size ≤ Stream.maxFrame := size_bytes.trans_le hsize
  obtain ⟨hh, hb⟩ := Stream.lt_of_add_le_maxFrame hsize
  rw [Stream.readAll_append (isFrame_bytes hh hb) hmax, leading, decode_bytes hw hh hb, hlengths]

structure Served where
  request : Request
  response : Response
  written : ByteArray

/-- Nothing is written if nobody waits. Otherwise what is written is one response under the codes of
the request: the one that came of it, or that this one cannot be written. -/
structure Served.Answered (x : Served) : Prop where
  oneway : x.request.isOneway = true → x.written = .empty
  twoway : x.request.isOneway = false → ∃ sent : Response, sent.encode = .ok x.written ∧
    sent.codes = x.request.codes ∧
      (sent = x.response ∨ ∃ e, x.response.encode = .error e ∧ sent = .failed x.request e)

section
variable {σ : Type} (handler : Handler (Work σ)) (cancels : Cancels)

/-- Requests are handled one after the other, with any time in between. Each one finds the state
that the one before has left, and the last one leaves the last state. -/
inductive Handler.InTurn : Clock → σ → List Served → σ → Prop
  | nil (c : Clock) (s : σ) : InTurn c s [] s
  | cons {c c' : Clock} {s s' s'' : σ} {request : Request} {response : Response}
    {rest : List Served} (span : Nat) (written : ByteArray)
    (hresponse : (handler.respond cancels request).run (c.advance span) s = (some response, c', s'))
    (hrest : InTurn c' s' rest s'') : InTurn c s (⟨request, response, written⟩ :: rest) s''

/-- All that a server owes a client who sends a stream. -/
structure Handler.ServedInOrder (stream : ByteArray) (c : Clock) (s : σ) (written : ByteArray)
    (s' : σ) (served : List Served) : Prop where
  requests_eq : served.map Served.request = Request.leading (Stream.readAll stream).1
  written_eq : written = Stream.joined (served.map Served.written)
  inTurn : handler.InTurn cancels c s served s'
  answered : ∀ x ∈ served, x.Answered

end

section
variable {σ : Type} {handler : Handler (Work σ)} {cancels : Cancels} {c c' : Clock} {s s' s'' : σ}
  {request : Request} {response : Response} {stream frame : ByteArray} {arrivals : List Arrival}

/-- Of a response under the codes of the request something is written that answers it. -/
theorem Handled.reply_answered (h : response.codes = request.codes) : ∃ written,
    Handled.reply request response = { written } ∧
    Served.Answered ⟨request, response, written⟩ := by
  cases hone : request.isOneway with
  | true => exact ⟨.empty, if_pos hone, fun _ => rfl, fun htwo => by cases hone.symm.trans htwo⟩
  | false =>
    have hnot : ¬ request.isOneway = true := ne_true_of_eq_false hone
    rw [reply, if_neg hnot]
    cases hencode : response.encode with
    | ok bytes =>
      have hbytes : response.bytes? request = some bytes := by rw [Response.bytes?, hencode]
      rw [hbytes]
      exact ⟨bytes, rfl, fun h => absurd h hnot, fun _ => ⟨response, hencode, h, .inl rfl⟩⟩
    -- a response that cannot be written is too large, and the error in its place is not
    | error e =>
      have hfailed : (Response.failed request e).encode = .ok (Response.failed request e).bytes :=
        Response.encode_failed (Response.size_of_encode hencode)
      have hbytes : response.bytes? request = some (Response.failed request e).bytes := by
        rw [Response.bytes?, hencode]
        exact congrArg Except.toOption hfailed
      rw [hbytes]
      exact ⟨_, rfl, fun h => absurd h hnot, fun _ => ⟨_, hfailed, rfl, .inr ⟨e, hencode, rfl⟩⟩⟩

theorem Handler.InTurn.wait {span : Nat} {served : List Served}
    (h : handler.InTurn cancels (c.advance span) s served s') :
    handler.InTurn cancels c s served s' := by
  cases h with
  | nil => exact .nil c s
  | cons span' written hresponse hrest =>
    rw [Clock.advance_advance] at hresponse
    exact .cons (span + span') written hresponse hrest

/-- A stream without requests in front is owed nothing. -/
theorem Handler.servedInOrder_nil (h : Request.leading (Stream.readAll stream).1 = []) :
    handler.ServedInOrder cancels stream c s .empty s [] where
  requests_eq := h.symm
  written_eq := rfl
  inTurn := .nil c s
  answered := nofun

/-- A frame that is handled in front of a stream is served before the rest of it. -/
theorem Handler.ServedInOrder.cons {written others : ByteArray} {served : List Served}
    (hframe : Stream.IsFrame frame) (hmax : frame.size ≤ Stream.maxFrame)
    (hdecode : Request.decode frame = .ok request)
    (hresponse : (handler.respond cancels request).run c s = (some response, c', s'))
    (hanswered : Served.Answered ⟨request, response, written⟩)
    (h : handler.ServedInOrder cancels stream c' s' others s'' served) :
    handler.ServedInOrder cancels (frame ++ stream) c s (written ++ others) s''
      (⟨request, response, written⟩ :: served) where
  requests_eq := by
    rw [Stream.readAll_append hframe hmax, Request.leading, hdecode, List.map_cons, h.requests_eq]
  written_eq := by rw [h.written_eq, List.map_cons, Stream.joined]
  inTurn := .cons 0 written (c.advance_zero.symm ▸ hresponse) h.inTurn
  answered := List.forall_mem_cons.mpr ⟨hanswered, h.answered⟩

section
variable {unread : ByteArray} {next : Nat} {m : Malformed} {a : Arrival} {rest : List Arrival}

theorem Handler.serveArriving_of_ok (h : Stream.readFrame unread 0 = .ok (frame, next)) :
    handler.serveArriving cancels unread arrivals = (do
      let h ← handler.serveFrame cancels frame
      if h.ends then pure h.written
      else do
        let others ← handler.serveArriving cancels (unread.extract next unread.size) arrivals
        pure (h.written ++ others)) := by
  rw [serveArriving.eq_def]
  split
  · rename_i h'
    cases h.symm.trans h'
    rfl
  · rename_i h'
    cases h.symm.trans h'
  · rename_i h'
    cases h.symm.trans h'

theorem Handler.serveArriving_nil (h : Stream.readFrame unread 0 = .error m) :
    handler.serveArriving cancels unread [] = pure .empty := by
  rw [serveArriving]
  split
  · rename_i h'
    cases h.symm.trans h'
  · rfl
  · rfl

theorem Handler.serveArriving_cons (h : Stream.readFrame unread 0 = .error .ended) :
    handler.serveArriving cancels unread (a :: rest) =
      Work.sleepUntil a.time >>= fun _ =>
      handler.serveArriving cancels (unread ++ a.bytes) rest := by
  rw [serveArriving]
  split
  · rename_i h'
    cases h.symm.trans h'
  · rfl
  · rename_i m hm h'
    cases h.symm.trans h'
    exact absurd rfl hm

theorem Handler.serveArriving_of_error (h : Stream.readFrame unread 0 = .error m)
    (hm : m ≠ .ended) : handler.serveArriving cancels unread arrivals = pure .empty := by
  rw [serveArriving.eq_def]
  split
  · rename_i h'
    cases h.symm.trans h'
  · rename_i h'
    cases h.symm.trans h'
    exact absurd rfl hm
  · rfl

/-- Bytes that are all there from the beginning are served as a whole. -/
theorem Handler.serveArriving_eq_serve (stream : ByteArray) :
    handler.serveArriving cancels stream [] = handler.serve cancels stream := by
  generalize hnil : ([] : List Arrival) = arrivals
  induction stream, arrivals using Handler.serveArriving.induct with
  | case1 unread arrivals frame next hread ih =>
    obtain ⟨hframe, hmax, -, hunread⟩ := Stream.begins_of_readFrame hread
    have hframes : (Stream.readAll unread).1 = frame ::
        (Stream.readAll (unread.extract next unread.size)).1 :=
      (congrArg (fun stream => (Stream.readAll stream).1) hunread).trans
        (Stream.readAll_append hframe hmax)
    rw [serveArriving_of_ok hread, serve, hframes, serveFrames, ih hnil]
    rfl
  | case2 unread hread =>
    rw [serveArriving_nil hread, serve, Stream.readAll, Stream.readFrom_of_error hread, serveFrames]
  | case3 unread hread a rest ih => cases hnil
  | case4 unread arrivals m hm hread =>
    rw [serveArriving_of_error hread hm, serve, Stream.readAll,
      Stream.readFrom_of_error hread, serveFrames]

end

/-- However the bytes come, what has come and what is to come is served as one stream. -/
theorem Handler.Answers.serveArriving (hh : handler.Answers) (unread : ByteArray)
    (arrivals : List Arrival) (c : Clock) (s : σ) :
    (handler.serveArriving cancels unread arrivals).Ends c s fun written _ s' => ∃ served,
      handler.ServedInOrder cancels (unread ++ Stream.joined (arrivals.map Arrival.bytes)) c s
        written s' served := by
  -- along the reading, which goes on with each frame that was handled and with each arrival
  induction unread, arrivals using Handler.serveArriving.induct generalizing c s with
  | case1 unread arrivals frame next hread ih =>
    obtain ⟨hframe, hmax, -, hunread⟩ := Stream.begins_of_readFrame hread
    have hstream : unread ++ Stream.joined (arrivals.map Arrival.bytes) =
        frame ++ (unread.extract next unread.size ++ Stream.joined
          (arrivals.map Arrival.bytes)) := by
      rw [← ByteArray.append_assoc, ← hunread]
    rw [serveArriving_of_ok hread, hstream]
    apply Work.ends_bind
    cases hdecode : Request.decode frame with
    | error e =>
      rw [serveFrame, hdecode]
      refine Work.ends_pure (Work.ends_pure ⟨[], servedInOrder_nil ?_⟩)
      rw [Stream.readAll_append hframe hmax, Request.leading, hdecode]
    | ok request =>
      rw [serveFrame, hdecode]
      have hresponds : (handler.respond cancels request).Ends c s _ := hh.respond
      obtain ⟨response, c', s', hresponse, hcodes⟩ := hresponds
      obtain ⟨written, hreply, hanswered⟩ := Handled.reply_answered hcodes
      refine Work.ends_bind ⟨response, c', s', hresponse, Work.ends_pure ?_⟩
      rw [hreply]
      refine Work.ends_bind ((ih c' s').mono fun others c'' s'' hothers => ?_)
      obtain ⟨served, hserved⟩ := hothers
      exact Work.ends_pure ⟨_, hserved.cons hframe hmax hdecode hresponse hanswered⟩
  | case2 unread hread =>
    rw [serveArriving_nil hread]
    refine Work.ends_pure ⟨[], servedInOrder_nil ?_⟩
    rw [List.map_nil, Stream.joined, ByteArray.append_empty, Stream.readAll,
      Stream.readFrom_of_error hread]
    rfl
  | case3 unread hread a rest ih =>
    rw [serveArriving_cons hread, List.map_cons, Stream.joined, ← ByteArray.append_assoc]
    refine Work.ends_bind (Work.ends_clock (Work.ends_sleep ?_))
    refine (ih _ s).mono fun written _ s' hrest => ?_
    obtain ⟨served, hserved⟩ := hrest
    exact ⟨served, { hserved with inTurn := hserved.inTurn.wait }⟩
  | case4 unread arrivals m hm hread =>
    rw [serveArriving_of_error hread hm]
    refine Work.ends_pure ⟨[], servedInOrder_nil ?_⟩
    rw [Stream.readAll, Stream.readFrom_of_error (Stream.readFrame_append_of_error hread hm)]
    rfl

end

/-- Whatever a client sends on a connection, and in whatever pieces it comes, a server whose methods
have handlers that end serves it in order. -/
theorem Server.serves_in_order [Gzip.Encoder] {σ : Type} (server : Server σ)
    (hservices : ∀ service ∈ server.services, service.Typed)
    (hinterceptors : server.interceptors = []) (cancels : Cancels) (arrivals : List Arrival)
    (c : Clock) (s : σ) :
    (server.handler.serveArriving cancels .empty arrivals).Ends c s fun written _ s' => ∃ served,
      server.handler.ServedInOrder cancels (Stream.joined (arrivals.map Arrival.bytes)) c s written
        s' served := by
  have hanswers : server.handler.Answers := by
    rw [Server.handler, hinterceptors]
    exact Dispatcher.answers_handler hservices
  have h : (server.handler.serveArriving cancels .empty arrivals).Ends c s _ :=
    hanswers.serveArriving .empty arrivals c s
  rw [ByteArray.empty_append] at h
  exact h

/-- A note that nobody waits for and a request for a service that is not there come cut in the
middle, with a byte too many. -/
theorem Server.serves_in_order_in_pieces :
    let service : Service (Work (List UInt64)) := Service.addHandler { name := "notes" } "Add"
      fun _ (n : UInt64) => do
        Work.modify fun notes => n :: notes
        pure (.ok n)
    let server : Server (List UInt64) := { config := {}, services := [service] }
    let note := (Request.new "notes" "Add").withMetadata onewayKey "true" |>.withData "7".toUTF8
    let lost := (Request.new "lost" "Get").withMessageId 2
    let stream := note.bytes ++ (lost.bytes ++ ⟨#[7]⟩)
    let arrivals : List Arrival := [⟨5, stream.extract 0 20⟩, ⟨9, stream.extract 20 stream.size⟩]
    (∀ service ∈ server.services, service.Typed) ∧ server.interceptors = [] ∧
      Request.leading (Stream.readAll (Stream.joined (arrivals.map Arrival.bytes))).1 =
        [note, lost] ∧
      (server.handler.serveArriving (fun _ => none) .empty arrivals).Ends
        ⟨0, 0⟩ [] fun written _ s' => ∃ served, server.handler.ServedInOrder (fun _ => none)
          (Stream.joined (arrivals.map Arrival.bytes)) ⟨0, 0⟩ [] written s' served := by
  intro service server note lost stream arrivals
  have hservices : ∀ service ∈ server.services, service.Typed := by
    intro s hs
    rw [List.mem_singleton.mp hs]
    exact .addHandler (.named "notes") "Add" _ fun _ _ _ _ => ⟨_, _, _, rfl, trivial⟩
  have hstream : Stream.joined (arrivals.map Arrival.bytes) = stream := by
    change stream.extract 0 20 ++ (stream.extract 20 stream.size ++ .empty) = stream
    rw [ByteArray.append_empty, extract_append_rest]
  refine ⟨hservices, rfl, ?_, server.serves_in_order hservices rfl _ _ _ _⟩
  have hrest : (Stream.readAll ⟨#[7]⟩).1 = [] := by
    rw [Stream.readAll, Stream.readFrom_of_error (m := .ended) (by decide)]
  have hnote : note.IsWritable := Request.checkFields_eq_ok.mp (by decide)
  have hlost : lost.IsWritable := Request.checkFields_eq_ok.mp (by decide)
  rw [hstream, Request.leading_append hnote rfl (by decide),
    Request.leading_append hlost rfl (by decide), hrest]
  rfl

end RemoteCall
