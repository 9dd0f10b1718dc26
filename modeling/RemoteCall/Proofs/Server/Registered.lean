import RemoteCall.Proofs.Data.KeyMap
import RemoteCall.Proofs.Data.Outcome
import RemoteCall.Proofs.Stub.Reply
import RemoteCall.Service

/-! Dispatch to services whose methods were registered with typed handlers.

Whatever a request names and carries, it gets one response under its codes. The handler of its
method runs once if its argument can be read, and not at all otherwise; the response tells what the
handler handed back. -/
namespace RemoteCall
variable {m : Type → Type} {α β : Type}

inductive Handling (m : Type → Type) (α β : Type) where
  | plain (f : Context → α → m (Result β))
  | full (f : Context → α → m (Reply β))

structure Registration (m : Type → Type) where
  name : String
  Argument : Type
  Value : Type
  [decodable : Decodable Argument]
  [encodable : Encodable Value]
  handling : Handling m Argument Value

attribute [instance] Registration.decodable Registration.encodable

structure ServiceTable (m : Type → Type) where
  name : String
  registrations : List (Registration m)

section
variable [Monad m]

def Handling.run : Handling m α β → Context → α → m (Reply β)
  | plain f => fun context a => Reply.ofResult <$> f context a
  | full f => f

def Registration.addTo [Gzip.Encoder] (r : Registration m) (s : Service m) : Service m :=
  match r.handling with
  | .plain f => s.addHandler r.name f
  | .full f => s.addReplying r.name f

def ServiceTable.service [Gzip.Encoder] (t : ServiceTable m) : Service m :=
  t.registrations.foldl (fun s r => r.addTo s) { name := t.name }

end

def table? (tables : List (ServiceTable m)) (service : String) : Option (ServiceTable m) :=
  tables.reverse.find? fun t => t.name == service

def ServiceTable.registration? (t : ServiceTable m) (method : String) : Option (Registration m) :=
  t.registrations.reverse.find? fun r => r.name == method

namespace Codes

/-- Both codes are known, and the data unpacks and decodes to the value. -/
def Hold [Decodable α] (c : Codes) (data : ByteArray) (a : α) : Prop :=
  ∃ compressor serializer plain, CompressType.ofCode c.compressor = .ok compressor ∧
    SerializeType.ofCode c.serializer = .ok serializer ∧
    compressor.decompress data = .ok plain ∧ serializer.decode plain = .ok a

/-- Both codes are known, and the value encodes and packs to the data. -/
def Write [Gzip.Encoder] [Encodable α] (c : Codes) (a : α) (data : ByteArray) : Prop :=
  ∃ compressor serializer plain, CompressType.ofCode c.compressor = .ok compressor ∧
    SerializeType.ofCode c.serializer = .ok serializer ∧
    serializer.encode a = .ok plain ∧ compressor.compress plain = .ok data

/-- A value is read just if the data holds it. -/
theorem read_eq_ok [Decodable α] {c : Codes} {data : ByteArray} {a : α} :
    c.read data = .ok a ↔ c.Hold data a := by
  simp only [read, bind_eq_ok, Hold]
  constructor
  · rintro ⟨compressor, hc, plain, hplain, serializer, hs, ha⟩
    exact ⟨compressor, serializer, plain, hc, hs, hplain, ha⟩
  · rintro ⟨compressor, serializer, plain, hc, hs, hplain, ha⟩
    exact ⟨compressor, hc, plain, hplain, serializer, hs, ha⟩

/-- A value is written just as the codes say. -/
theorem write_eq_ok [Gzip.Encoder] [Encodable α] {c : Codes} {a : α} {data : ByteArray} :
    c.write a = .ok data ↔ c.Write a data := by
  simp only [write, bind_eq_ok, Write]
  constructor
  · rintro ⟨serializer, hs, plain, hplain, compressor, hc, hdata⟩
    exact ⟨compressor, serializer, plain, hc, hs, hplain, hdata⟩
  · rintro ⟨compressor, serializer, plain, hc, hs, hplain, hdata⟩
    exact ⟨serializer, hs, plain, hplain, compressor, hc, hdata⟩

end Codes

namespace Response

/-- The response bears what the request asks for, and says how long it is. -/
structure Answers (response : Response) (request : Request) : Prop where
  messageId_eq : response.codes.messageId = request.codes.messageId
  version_eq : response.codes.version = request.codes.version
  compressor_eq : response.codes.compressor = request.codes.compressor
  serializer_eq : response.codes.serializer = request.codes.serializer
  headLength_eq : response.headLength = UInt32.ofNat (15 + response.error.size)
  bodyLength_eq : response.bodyLength = UInt32.ofNat response.data.size

/-- The response tells what a handler handed back: an error if there is one or the value cannot be
written, and the value wherever it can be written. -/
structure Tells [Gzip.Encoder] [Encodable β] (response : Response) (request : Request)
    (reply : Reply β) : Prop where
  hasError_iff : response.hasError = true ↔
    reply.error.isSome = true ∨ ∃ v, reply.value = some v ∧ ∀ data, ¬ request.codes.Write v data
  value_kept : ∀ v data, reply.value = some v → request.codes.Write v data → response.data = data
  data_written : response.data ≠ .empty → ∃ v, reply.value = some v ∧
    request.codes.Write v response.data

/-- The response has lengths of its own and the codes of the request. -/
theorem answers_of_withLengths {response : Response} {request : Request}
    (hcodes : response.codes = request.codes) (hlengths : response.withLengths = response) :
    response.Answers request where
  messageId_eq := congrArg _ hcodes
  version_eq := congrArg _ hcodes
  compressor_eq := congrArg _ hcodes
  serializer_eq := congrArg _ hcodes
  headLength_eq := congrArg headLength hlengths.symm
  bodyLength_eq := congrArg bodyLength hlengths.symm

theorem hasError_withError (response : Response) (e : Error) :
    (response.withError e.wireText).hasError = true := by
  have hne : e.wireText.toUTF8.isEmpty = false :=
    beq_false_of_ne fun hsize => e.wireText_ne_empty (String.utf8ByteSize_eq_zero_iff.mp hsize)
  exact congrArg not hne

theorem withLengths_withReply [Gzip.Encoder] [Encodable β] {response : Response} (reply : Reply β)
    (h : response.withLengths = response) :
    (response.withReply reply).withLengths = response.withReply reply := by
  -- every shape but the empty one sets the lengths
  unfold withReply
  split
  case h_6 => exact h
  all_goals rfl

theorem answers_failed (request : Request) (e : Error) : (failed request e).Answers request :=
  answers_of_withLengths rfl rfl

/-- What a handler hands back is told under the id of the request. -/
theorem answers_withReply [Gzip.Encoder] [Encodable β] (request : Request) (reply : Reply β) :
    ((replyTo request).withReply reply).Answers request :=
  answers_of_withLengths (codes_withReply _ reply) (withLengths_withReply reply rfl)

section
variable [Gzip.Encoder] [Encodable β] {response : Response} {request : Request} {v : β}
  {data : ByteArray} (error : Option Error)

/-- A value that can be written goes along with an error. -/
theorem withReply_of_ok (h : response.codes.write v = .ok data) :
    response.withReply ⟨some v, error⟩ =
    error.elim (response.withData data) fun e => (response.withData data).withError e.wireText := by
  cases error with
  | none => simp only [withReply, Option.map_some, h, Option.elim_none]
  | some e => simp only [withReply, Option.map_some, h, Option.elim_some]

/-- The error of a handler counts before the failure to write its value. -/
theorem withReply_of_error {fault : Error} (h : response.codes.write v = .error fault) :
    response.withReply ⟨some v, error⟩ = response.withError (error.getD fault).wireText := by
  cases error with
  | none => simp only [withReply, Option.map_some, h, Option.getD_none]
  | some e => simp only [withReply, Option.map_some, h, Option.getD_some]

/-- A value that can be written travels, with the error if there is one. -/
theorem tells_of_ok (h : request.codes.write v = .ok data) :
    ((replyTo request).withReply ⟨some v, error⟩).Tells request ⟨some v, error⟩ := by
  -- the value is there whether an error comes along or not
  have hdata : request.codes.Write v data := Codes.write_eq_ok.mp h
  have hok : (replyTo request).codes.write v = .ok data := h
  have hreply := withReply_of_ok error hok
  have hdata_eq : ((replyTo request).withReply ⟨some v, error⟩).data = data := by
    rw [hreply]
    cases error with
    | none => rfl
    | some e => rfl
  refine ⟨?_, fun w data' hw h' => ?_, fun _ => ⟨v, rfl, hdata_eq.symm ▸ hdata⟩⟩
  · -- as the value can be written, the error alone counts
    rw [hreply]
    cases error with
    | none =>
      refine ⟨nofun, ?_⟩
      rintro (herror | ⟨w, hw, hnone⟩)
      · cases herror
      · cases hw
        exact absurd hdata (hnone data)
    | some e => exact iff_of_true (hasError_withError _ e) (.inl rfl)
  · cases hw
    rw [← Codes.write_eq_ok, h] at h'
    exact hdata_eq.trans (Except.ok.inj h')

/-- A value that cannot be written is a failure, unless there is an error to tell. -/
theorem tells_of_error {fault : Error} (h : request.codes.write v = .error fault) :
    ((replyTo request).withReply ⟨some v, error⟩).Tells request ⟨some v, error⟩ := by
  -- no data stands for the value, so the response says what is wrong and has none
  have hnone (data : ByteArray) : ¬ request.codes.Write v data := by
    rw [← Codes.write_eq_ok, h]
    exact nofun
  have hfault : (replyTo request).codes.write v = .error fault := h
  rw [withReply_of_error error hfault]
  refine ⟨iff_of_true (hasError_withError _ _) (.inr ⟨v, rfl, hnone⟩), fun w data hw hdata => ?_,
    fun hdata => absurd rfl hdata⟩
  cases hw
  exact absurd hdata (hnone data)

/-- The response to a request tells what was handed back. -/
theorem tells_withReply (request : Request) (reply : Reply β) :
    ((replyTo request).withReply reply).Tells request reply := by
  obtain ⟨_ | v, error⟩ := reply
  · cases error with
    | none => exact ⟨⟨nofun, nofun⟩, nofun, fun h => absurd rfl h⟩
    | some e => exact ⟨iff_of_true (hasError_withError _ e) (.inl rfl), nofun,
      fun h => absurd rfl h⟩
  · cases hwrite : request.codes.write v with
    | error fault => exact tells_of_error error hwrite
    | ok data => exact tells_of_ok error hwrite

end

end Response

section
variable [Gzip.Encoder] [Monad m] {tables : List (ServiceTable m)}
  {context : Context} {request : Request}

def Registration.method (r : Registration m) : Method m := Service.replying r.handling.run

theorem Registration.addTo_eq (r : Registration m) (s : Service m) :
    r.addTo s = s.add r.name r.method := by
  unfold addTo method
  cases r.handling with
  | plain f => rfl
  | full f => rfl

/-- A service finds what was registered last under each name. -/
theorem ServiceTable.service_eq (t : ServiceTable m) :
    t.service = ⟨t.name, KeyMap.ofList (t.registrations.map fun r => (r.name, r.method))⟩ := by
  -- on what is still to be registered, in any service
  have hfoldl (l : List (Registration m)) (s : Service m) : l.foldl (fun s r => r.addTo s) s =
      ⟨s.name, s.methods.insertAll (l.map fun r => (r.name, r.method))⟩ := by
    induction l generalizing s with
    | nil => rfl
    | cons r rest ih =>
      rw [List.foldl_cons, ih, Registration.addTo_eq]
      rfl
  exact hfoldl t.registrations _

theorem ServiceTable.name_service (t : ServiceTable m) :
    t.service.name = t.name := by rw [service_eq]

theorem ServiceTable.get?_methods (t : ServiceTable m) (method : String) :
    t.service.methods.get? method = (t.registration? method).map Registration.method := by
  rw [service_eq, KeyMap.get?_ofList_eq_find?, ← List.map_reverse, List.find?_map, Option.map_map]
  rfl

theorem Dispatcher.get?_services (tables : List (ServiceTable m)) (service : String) :
    (ofList (tables.map ServiceTable.service)).services.get? service =
      (table? tables service).map ServiceTable.service := by
  rw [ofList, KeyMap.get?_ofList_eq_find?, List.map_map, ← List.map_reverse,
    List.find?_map, Option.map_map]
  simp only [table?, Function.comp_def, ServiceTable.name_service]

/-- Why no handler runs for a request. -/
inductive Request.Refused (tables : List (ServiceTable m)) (request : Request) : Error → Prop
  | noService (ht : ∀ t ∈ tables, t.name ≠ request.service) :
    Refused tables request ⟨.serviceNotFound, "service not found: " ++ request.service⟩
  | noMethod {t : ServiceTable m} (ht : table? tables request.service = some t)
    (hr : ∀ r ∈ t.registrations, r.name ≠ request.method) :
    Refused tables request
      ⟨.methodNotFound, "method not found: " ++ request.service ++ "." ++ request.method⟩
  | unreadable {t : ServiceTable m} {r : Registration m} {e : Error}
    (ht : table? tables request.service = some t) (hr : t.registration? request.method = some r)
    (ha : ∀ a : r.Argument, ¬ request.codes.Hold request.data a)
    (he : (request.codes.read request.data : Result r.Argument) = .error e) :
    Refused tables request e

/-- The ways in which a request can be handled: it is refused and nothing runs, or the handler that
is registered for it runs, on the argument that the request holds, and nothing else does. -/
inductive Request.Dispatched (tables : List (ServiceTable m)) (context : Context)
    (request : Request) :
    m Response → Prop
  | refused {e : Error} {response : Response} (he : request.Refused tables e)
    (hanswers : response.Answers request) (herror : response.hasError = true)
    (htext : response.errorText = some e.wireText) (hdata : response.data = .empty) :
    Dispatched tables context request (pure response)
  | ran {t : ServiceTable m} {r : Registration m} {a : r.Argument}
    {respond : Reply r.Value → Response}
    (ht : table? tables request.service = some t) (hr : t.registration? request.method = some r)
    (ha : request.codes.Hold request.data a) (hanswers : ∀ reply, (respond reply).Answers request)
    (htells : ∀ reply, (respond reply).Tells request reply) :
    Dispatched tables context request (do
      let reply ← r.handling.run context a
      pure (respond reply))

theorem Request.Refused.dispatched {e : Error} (h : request.Refused tables e) :
    request.Dispatched tables context (pure (.failed request e) : m Response) :=
  .refused h (Response.answers_failed request e) (Response.hasError_withError _ e)
    (Response.errorText_withError _ e.wireText_ne_empty) rfl

/-- Every request is answered, after one run of the handler that is registered for it, or after
none. -/
theorem Dispatcher.answered_once (tables : List (ServiceTable m)) (context : Context)
    (request : Request) :
    request.Dispatched tables context
      ((ofList (tables.map ServiceTable.service)).dispatch context request) := by
  rw [dispatch, method?, get?_services]
  cases ht : table? tables request.service with
  | none =>
    apply Request.Refused.dispatched
    apply Request.Refused.noService
    intro t hmem hname
    have hfind := List.find?_eq_none.mp ht t (List.mem_reverse.mpr hmem)
    exact hfind (beq_iff_eq.mpr hname)
  | some t =>
    simp only [Option.map_some, ServiceTable.get?_methods]
    cases hr : t.registration? request.method with
    | none =>
      apply Request.Refused.dispatched
      apply Request.Refused.noMethod ht
      intro r hmem hname
      exact List.find?_eq_none.mp hr r (List.mem_reverse.mpr hmem) (beq_iff_eq.mpr hname)
    | some r =>
      simp only [Option.map_some]
      rw [Registration.method, Service.replying]
      cases hread : (request.codes.read request.data : Result r.Argument) with
      | error e =>
        apply Request.Refused.dispatched
        apply Request.Refused.unreadable ht hr _ hread
        intro a ha
        cases hread.symm.trans (Codes.read_eq_ok.mpr ha)
      | ok a =>
        exact .ran ht hr (Codes.read_eq_ok.mp hread) (Response.answers_withReply request)
          (Response.tells_withReply request)

end
end RemoteCall
