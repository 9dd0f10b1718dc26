import RemoteCall.Gzip.Stored
import RemoteCall.Proofs.Connection.RoundTrip
import RemoteCall.Proofs.Server.Answers
import RemoteCall.Proofs.Stub.Reply

/-! Calls are transparent: through stub, client, network and server a caller learns what the handler
handed back, and nothing else happens to it. -/
namespace RemoteCall
variable {ω : Type} {server : Server ω} {origin : PeerAddress} {network : Network (Client ω)}
  {cancels serverCancels : Cancels} {client : Client ω} {r : Request} {frame : ByteArray}
  {response : Response} {c : Clock} {world : ω} {R : Response → Clock → ω → Prop}

/-- A client with room for a call, and a server whose services have names of their own. The client
reaches the server, which lets it in; nothing stands between them, and nobody gives up or stops. -/
structure Client.Meets (client : Client ω) (network : Network (Client ω)) (cancels : Cancels)
    (server : Server ω) (origin : PeerAddress) (serverCancels : Cancels) : Prop where
  ready : client.traffic.Ready
  reaches : client.lines.Reaches network (server.around serverCancels origin)
  welcome_eq : server.welcome origin = .ok ()
  interceptors_eq : server.interceptors = []
  names_nodup : (server.services.map Service.name).Nodup
  cancels_eq : cancels 0 = none
  serverCancels_eq : serverCancels 0 = none

/-- Services that are added have names of their own. -/
theorem Server.names_nodup_add {s s' : Server ω} {service : Service (Work ω)}
    (h : s.add service = .ok s') (hs : (s.services.map Service.name).Nodup) :
    (s'.services.map Service.name).Nodup := by
  unfold Server.add at h
  split at h
  · cases h
  · rename_i hnew
    cases h
    rw [List.map_append, List.nodup_append]
    refine ⟨hs, List.nodup_singleton _, fun name hname name' hname' heq => hnew ?_⟩
    obtain ⟨other, hother, rfl⟩ := List.mem_map.mp hname
    rw [List.map_singleton, List.mem_singleton] at hname'
    exact List.any_eq_true.mpr ⟨other, hother, beq_iff_eq.mpr (heq.trans hname')⟩

/-- A response that can be sent brings the caller just this response. -/
theorem Response.Sendable.brings (h : response.Sendable r) (hd : Request.decode frame = .ok r)
    (htwo : r.isOneway = false) : (Handled.reply r response).Brings frame r response := by
  obtain ⟨hh, hb⟩ := Stream.lt_of_add_le_maxFrame h.size_le
  have hencode : response.encode = .ok response.bytes := encode_eq_ok.mpr ⟨hh, hb, rfl⟩
  have hreply : Handled.reply r response = { written := response.bytes } := by
    rw [Handled.reply, if_neg (ne_true_of_eq_false htwo), bytes?, hencode]
  have hid : response.codes.messageId = r.codes.messageId := congrArg Codes.messageId h.codes_eq
  refine ⟨.replies r response hd hid, ?_, ?_, ?_, ?_⟩
  · rw [hreply]
  · rw [hreply]
    exact isFrame_bytes hh hb
  · rw [hreply]
    exact size_bytes.trans_le h.size_le
  · rw [hreply]
    have hdecode := decode_bytes hh hb
    rw [h.withLengths_eq] at hdecode
    exact Request.accept_eq_ok.mpr ⟨hdecode, hid⟩

/-- A request without metadata is dispatched in an empty context, and its response goes back. -/
theorem Client.Meets.ends_peer (hm : client.Meets network cancels server origin serverCancels)
    (hd : Request.decode frame = .ok r) (hr : r.metadata = .empty)
    (h : ((Dispatcher.ofList server.services).dispatch {} r).Ends c world R) :
    (server.peer serverCancels origin frame).Ends c world fun handled c' world' =>
      ∃ response, handled = .reply r response ∧ R response c' world' := by
  -- no time limit and no note come with the request
  have hcontext : Context.ofRequest r c 0 = {} := by
    simp only [Context.ofRequest, Request.deadlineMillis, Request.isOneway, hr]
    rfl
  unfold Server.peer
  rw [hm.welcome_eq]
  dsimp only
  rw [Handler.serveFrame, hd]
  refine Work.ends_bind ?_
  unfold Handler.respond
  refine Work.ends_clock ?_
  rw [hcontext, Server.handler, hm.interceptors_eq]
  refine Work.ends_bind (Work.ends_bound_of_none rfl hm.serverCancels_eq ?_)
  refine Work.ends_bind (h.mono fun response c' world' hr => ?_)
  exact Work.ends_pure (Work.ends_pure (Work.ends_pure ⟨response, rfl, hr⟩))

/-- A request without metadata goes through the invoker of a client and brings the response that the
server makes of it. -/
theorem Client.Meets.ends_dispatch (hm : client.Meets network cancels server origin serverCancels)
    (hr : r.metadata = .empty) (hlengths : r.withLengths = r) (hencode : r.encode = .ok r.bytes)
    (hmax : r.bytes.size ≤ Stream.maxFrame)
    (h : ∀ c', c.LeadsTo c' → ((Dispatcher.ofList server.services).dispatch {} r).Ends c' world
      fun response c'' world' => response.Sendable r ∧ R response c'' world') :
    ((client.invoker network cancels []).dispatch {} r .unary).Ends c { client with world }
      fun dispatched c' s' => ∃ response, dispatched = .ok (.single response) ∧
        s'.Meets network cancels server origin serverCancels ∧ R response c' s'.world := by
  have htwo : r.isOneway = false := by
    rw [Request.isOneway, hr]
    rfl
  have hdecode : Request.decode r.bytes = .ok r :=
    (Request.Sendable.decode hencode).trans (congrArg Except.ok hlengths)
  have hpeer (c' : Clock) (hleads : c.LeadsTo c') :
      (server.peer serverCancels origin r.bytes).Ends c' world
        fun handled c'' world' => ∃ response, handled.Brings r.bytes r response ∧
        R response c'' world' := by
    refine (hm.ends_peer hdecode hr (h c' hleads)).mono fun handled c'' world' hserved => ?_
    obtain ⟨response, rfl, hsendable, hresponse⟩ := hserved
    exact ⟨response, hsendable.brings hdecode htwo, hresponse⟩
  have hcall := Client.ends_call (s := { client with world }) hm.ready
    hm.cancels_eq hm.reaches hlengths
    hencode htwo hmax hpeer
  refine Work.ends_bind (hcall.mono fun outcome c' s' houtcome => ?_)
  obtain ⟨response, traffic, world', rfl, rfl, hready, hresponse⟩ := houtcome
  exact Work.ends_pure ⟨response, rfl, { hm with ready := hready }, hresponse⟩

def Client.request (client : Client ω) (service method : String) (id : UInt32) (data : ByteArray) :
    Request :=
  (((Request.new service method).withMessageId id).withCodes client.config.serializer
    client.config.compressor).withData data

section
variable {service method : String} {id : UInt32} {data : ByteArray}

theorem Client.encode_request (hservice : Request.IsPlain service)
    (hmethod : Request.IsPlain method)
    (hsize : (client.request service method id data).headerSize + data.size ≤ Stream.maxFrame) :
    let request := client.request service method id data
    request.encode = .ok request.bytes ∧ request.bytes.size ≤ Stream.maxFrame := by
  intro request
  obtain ⟨hh, hb⟩ := Stream.lt_of_add_le_maxFrame hsize
  have hwritable : request.IsWritable := ⟨hservice, hmethod, nofun⟩
  exact ⟨Request.encode_eq_ok.mpr ⟨hwritable, hh, hb, rfl⟩, Request.size_bytes.trans_le hsize⟩

section
variable [Gzip.Encoder] {α β : Type} [Encodable α] [Decodable β]
  {takeId : Work ω UInt32} {c₀ c' : Clock}
  {client' : Client ω} {a : α}

/-- The stub takes a number for its request. -/
theorem Client.run_request (htakes : takeId.run c client.world = (some id, c₀, world))
    (hargument : (client.stub network cancels takeId service).argument a = .ok data) :
    ((client.stub network cancels takeId service).request method a).run c client =
      (some (.ok (client.request service method id data)), c₀, { client with world }) := by
  have hid : takeId.around.run c client = (some id, c₀, { client with world }) := by
    rw [Work.run_around, htakes]
  unfold Stub.request
  rw [hargument]
  exact Work.run_bind hid

/-- What a stub makes of a response is what its caller gets. -/
theorem Client.run_call (htakes : takeId.run c client.world = (some id, c₀, world))
    (hargument : (client.stub network cancels takeId service).argument a = .ok data)
    (hdispatch : ((client.invoker network cancels []).dispatch {}
      (client.request service method id data)
      .unary).run c₀ { client with world } = (some (.ok (.single response)), c', client')) :
    ((client.stub network cancels takeId service).call {} method a :
      Work (Client ω) (Result β)).run c client = (some response.toResult, c', client') := by
  have hmode : ((client.stub network cancels takeId service).mode == .broadcastAll) = false := rfl
  unfold Stub.call Stub.callWith
  rw [if_neg (ne_true_of_eq_false hmode), Work.run_bind (run_request htakes hargument)]
  exact Work.run_bind hdispatch

end

section
variable [Gzip.Encoder] {α β : Type} [Encodable α] [Decodable α] [Decodable β]
  {takeId : Work ω UInt32} {c₀ : Clock}
  {a : α}

/-- A call brings its caller what the server dispatches its request to. -/
theorem Client.Meets.ends_call (hm : client.Meets network cancels server origin serverCancels)
    (htakes : takeId.run c client.world = (some id, c₀, world)) (hservice : Request.IsPlain service)
    (hmethod : Request.IsPlain method)
    (harg : Travels client.config.serializer client.config.compressor a data)
    (hsize : (client.request service method id data).headerSize + data.size ≤ Stream.maxFrame)
    (h : ∀ c', c₀.LeadsTo c' →
      ((Dispatcher.ofList server.services).dispatch {} (client.request service method id data)).Ends
        c' world fun response c'' world' =>
          response.Sendable (client.request service method id data) ∧ R response c'' world') :
    ∃ response c' client',
      ((client.invoker network cancels []).dispatch {}
        (client.request service method id data) .unary).run c₀
        { client with world } = (some (.ok (.single response)), c', client') ∧
      ((client.stub network cancels takeId service).call {} method a : Work
        (Client ω) (Result β)).run c
        client = (some response.toResult, c', client') ∧
      client'.Meets network cancels server origin serverCancels ∧ R response c' client'.world := by
  obtain ⟨hencode, hmax⟩ := encode_request hservice hmethod hsize
  obtain ⟨_, c', client', hdispatch, response, rfl, hm', hr⟩ :=
    hm.ends_dispatch rfl rfl hencode hmax h
  have hargument : (client.stub network cancels takeId service).argument a = .ok data := by
    obtain ⟨plain, hplain, hpacked, -, -⟩ := harg
    exact bind_eq_ok.mpr ⟨plain, hplain, hpacked⟩
  exact ⟨response, c', client', hdispatch, run_call htakes hargument hdispatch, hm', hr⟩

/-- What a call brings is just what the handler handed back when it ran, once, on the argument of
the call: its value if there was no error, else the text of the error; the response carries
whichever halves there were. A handler that hands back a result is one whose reply has one half. A
method that is not there, or whose service is not, is an error of the server. After each call the
client is ready for the next. -/
theorem Client.call_transparent [Encodable β]
    (hm : client.Meets network cancels server origin serverCancels)
    (htakes : takeId.run c client.world = (some id, c₀, world)) (hservice : Request.IsPlain service)
    (hmethod : Request.IsPlain method)
    (harg : Travels client.config.serializer client.config.compressor a data)
    (hsize : (client.request service method id data).headerSize + data.size ≤ Stream.maxFrame) :
    let request := client.request service method id data
    let dispatch := (client.invoker network cancels []).dispatch {} request .unary
    let call : Work (Client ω) (Result β) :=
      (client.stub network cancels takeId service).call {} method a
    (∀ s ∈ server.services, ∀ handler : Context → α → Work ω (Reply β), s.name = service →
      s.methods.get? method = some (Service.replying handler) →
      (∀ c₁, c₀.LeadsTo c₁ → (handler {} a).Ends c₁ world fun reply _ _ =>
        reply.Travels client.config.serializer client.config.compressor) →
      ∃ c₁ reply response outcome c' client', c₀.LeadsTo c₁ ∧
        (handler {} a).run c₁ world = (some reply, c', client'.world) ∧
        dispatch.run c₀ { client with world } = (some (.ok (.single response)), c', client') ∧
        call.run c client = (some outcome, c', client') ∧
        reply.Arrives client.config.serializer client.config.compressor response outcome ∧
        client'.Meets network cancels server origin serverCancels) ∧
    ((∀ s ∈ server.services, s.name = service → s.methods.get? method = none) →
      headSize + (Dispatcher.methodNotFound service method).text.utf8ByteSize ≤ Stream.maxFrame →
      ∃ e c' client',
        (e = Dispatcher.serviceNotFound service ∨ e = Dispatcher.methodNotFound service method) ∧
        call.run c client = (some (.error ⟨.server, e.text⟩), c', client') ∧
        client'.Meets network cancels server origin serverCancels) := by
  intro request dispatch call
  have hcodes : request.codes.Name client.config.serializer client.config.compressor := ⟨rfl, rfl⟩
  constructor
  · intro s hs handler hname hfound hhandler
    -- what the caller is to learn from the response, through all that lies between
    let R (response : Response) (c' : Clock) (world' : ω) : Prop := ∃ c₁ reply, c₀.LeadsTo c₁ ∧
      (handler {} a).run c₁ world = (some reply, c', world') ∧
      reply.Arrives client.config.serializer client.config.compressor response response.toResult
    have hdispatch (c₁ : Clock) (hleads : c₀.LeadsTo c₁) :
        ((Dispatcher.ofList server.services).dispatch {} request).Ends c₁ world
          fun response c' world' => response.Sendable request ∧ R response c' world' := by
      obtain ⟨reply, c', world', hrun, htravels⟩ := hhandler c₁ hleads
      obtain ⟨hsendable, harrives⟩ := htravels.arrives hcodes
      have hrun' := Dispatcher.run_dispatch_of_mem hm.names_nodup hs hname hfound
        (harg.read hcodes) hrun
      exact ⟨_, c', world', hrun', hsendable, c₁, reply, hleads, hrun, harrives⟩
    obtain ⟨response, c', client', hdispatched, hcalled, hm', c₁, reply, hleads, hrun, harrives⟩ :=
      hm.ends_call (R := R) (β := β) htakes hservice hmethod harg hsize hdispatch
    exact ⟨c₁, reply, response, _, c', client', hleads, hrun, hdispatched, hcalled, harrives, hm'⟩
  · intro hlacks hfits
    let R (response : Response) (_ : Clock) (_ : ω) : Prop :=
      ∃ e, (e = Dispatcher.serviceNotFound service ∨ e = Dispatcher.methodNotFound service method) ∧
        response = .failed request e
    have hdispatch (c₁ : Clock) (_ : c₀.LeadsTo c₁) :
        ((Dispatcher.ofList server.services).dispatch {} request).Ends c₁ world
          fun response c' world' => response.Sendable request ∧ R response c' world' := by
      obtain ⟨e, he, hrun⟩ := @Dispatcher.run_dispatch_of_lacking _ _ {} request c₁ world hlacks
      obtain ⟨htext, hle⟩ := Dispatcher.wireText_of_lacking he
      have hsendable : (Response.failed request e).Sendable request := by
        refine ⟨rfl, rfl, ?_⟩
        change headSize + e.wireText.utf8ByteSize + 0 ≤ Stream.maxFrame
        rw [htext]
        exact (Nat.add_le_add_left hle headSize).trans hfits
      exact ⟨_, c₁, world, hrun, hsendable, e, he, rfl⟩
    obtain ⟨response, c', client', -, hcalled, hm', e, he, rfl⟩ :=
      hm.ends_call (R := R) (β := β) htakes hservice hmethod harg hsize hdispatch
    have hresult : ((Response.failed request e).toResult : Result β) =
        .error ⟨.server, e.wireText⟩ :=
      Response.toResult_withError e.wireText e.wireText_ne_empty
    rw [hresult, (Dispatcher.wireText_of_lacking he).1] at hcalled
    exact ⟨e, c', client', he, hcalled, hm'⟩

end

end

/-- Half of an odd number travels with an error that has no text of its own. The other call asks for
a method that is not there. -/
theorem Client.call_transparent_partial :
    let handler : Context → UInt64 → Work UInt32 (Reply UInt64) := fun _ n =>
      pure (.both (n / 2) (.ofKind .other))
    let service : Service (Work UInt32) := Service.addReplying { name := "sums" } "Halve" handler
    let server : Server UInt32 := { config := {}, services := [service] }
    let origin : PeerAddress := ⟨.v4 [127, 0, 0, 1], 50000⟩
    let cancels : Cancels := fun _ => none
    let network : Network (Client UInt32) := fun _ => pure (.ok (server.around cancels origin))
    let takeId : Work UInt32 UInt32 := Work.modifyGet fun n => (n, n + 1)
    let client : Client UInt32 :=
      { address := "127.0.0.1:8081", config := {}, traffic := { pool := { config := {} } },
        world := 1 }
    let stub := client.stub network cancels takeId "sums"
    let halve : Work (Client UInt32) (Result UInt64) := stub.call {} "Halve" (7 : UInt64)
    let double : Work (Client UInt32) (Result UInt64) := stub.call {} "Double" (7 : UInt64)
    client.Meets network cancels server origin cancels ∧
      Travels .json .none (7 : UInt64) "7".toUTF8 ∧
      (∃ response c' client', ((client.invoker network cancels []).dispatch {}
          (client.request "sums" "Halve" 1 "7".toUTF8) .unary).run ⟨0, 0⟩
          { client with world := 2 } = (some (.ok (.single response)), c', client') ∧
          response.errorText = some "Other" ∧ Travels .json .none (3 : UInt64) response.data ∧
          halve.run ⟨0, 0⟩ client = (some (.error ⟨.server, "Other"⟩), c', client')) ∧
      ∃ e c' client',
        (e = Dispatcher.serviceNotFound "sums" ∨ e = Dispatcher.methodNotFound "sums" "Double") ∧
        double.run ⟨0, 0⟩ client = (some (.error ⟨.server, e.text⟩), c', client') := by
  intro handler service server origin cancels network takeId client stub halve double
  have hreaches : client.lines.Reaches network (server.around cancels origin) :=
    ⟨fun c s => ⟨_, c, s, rfl, rfl, rfl⟩, fun c s => ⟨_, c, s, rfl, rfl, rfl⟩⟩
  have hnames : (server.services.map Service.name).Nodup :=
    Server.names_nodup_add (s := { config := {} }) rfl List.nodup_nil
  have hmeets : client.Meets network cancels server origin cancels :=
    ⟨@Traffic.ready_ofConfig client.traffic {} rfl, hreaches, rfl, rfl, hnames, rfl, rfl⟩
  have hseven : Travels .json .none (7 : UInt64) "7".toUTF8 :=
    ⟨"7".toUTF8, rfl, rfl, rfl, by decide +kernel⟩
  have hthree : Travels .json .none (3 : UInt64) "3".toUTF8 :=
    ⟨"3".toUTF8, rfl, rfl, rfl, by decide +kernel⟩
  have hsums : Request.IsPlain "sums" := ⟨by decide, by decide⟩
  have htakes : takeId.run ⟨0, 0⟩ client.world = (some 1, ⟨0, 0⟩, 2) := rfl
  refine ⟨hmeets, hseven, ?_, ?_⟩
  · have hhalve : Request.IsPlain "Halve" := ⟨by decide, by decide⟩
    have hreply (c₁ : Clock) : (handler {} 7).Ends c₁ 2 fun reply _ _ =>
        reply.Travels .json .none := by
      refine Work.ends_pure ⟨by decide, fun v hv => ⟨"3".toUTF8, ?_, by decide⟩⟩
      cases hv
      exact hthree
    obtain ⟨c₁, reply, response, outcome, c', client', -, hrun, hdispatch, hcall, harrives, -⟩ :=
      (Client.call_transparent (β := UInt64) hmeets htakes hsums hhalve hseven (by decide)).1
        service (List.mem_singleton_self service) handler rfl rfl fun c₁ _ => hreply c₁
    obtain rfl : Reply.both 3 (.ofKind .other) = reply := Option.some.inj (congrArg Prod.fst hrun)
    obtain rfl := harrives.failed _ rfl
    exact ⟨response, c', client', hdispatch, harrives.errorText_eq, harrives.travels 3 rfl, hcall⟩
  · have hdouble : Request.IsPlain "Double" := ⟨by decide, by decide⟩
    have hlacks : ∀ s ∈ server.services, s.name = "sums" → s.methods.get? "Double" = none := by
      intro s hs _
      rw [List.mem_singleton.mp hs]
      rfl
    obtain ⟨e, c', client', he, hcall, -⟩ :=
      (Client.call_transparent (β := UInt64) hmeets htakes hsums hdouble hseven (by decide)).2
        hlacks (by decide)
    exact ⟨e, c', client', he, hcall⟩

end RemoteCall
