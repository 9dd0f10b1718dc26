import RemoteCall.Proofs.Connection.Serving
import RemoteCall.Proofs.Server.Dispatch

/-! Whatever becomes of a request, its answer bears the codes of the request and can be written.

The handler may hand back anything, or be cut by the deadline; the argument may be unreadable, the
service unknown, the response too large. -/
namespace RemoteCall
variable {σ : Type}

/-- Every method was added with a handler that ends, which hands back a value or an error, or both.
-/
inductive Service.Typed [Gzip.Encoder] : Service (Work σ) → Prop
  | named (name : String) : Typed { name }
  | addHandler {α β : Type} [Decodable α] [Encodable β] {service : Service (Work σ)}
    (hs : Typed service) (name : String) (handler : Context → α → Work σ (Result β))
    (hends : ∀ context a c s, (handler context a).Ends c s fun _ _ _ => True) :
    Typed (service.addHandler name handler)
  | addReplying {α β : Type} [Decodable α] [Encodable β]
    {service : Service (Work σ)} (hs : Typed service)
    (name : String) (handler : Context → α → Work σ (Reply β))
    (hends : ∀ context a c s, (handler context a).Ends c s fun _ _ _ => True) :
    Typed (service.addReplying name handler)

/-- The method ends, with a response that bears the codes of the request. -/
def Method.Answers (method : Method (Work σ)) : Prop := ∀ context request c s,
  (method context request).Ends c s fun response _ _ => response.codes = request.codes

section
variable {α β : Type} [Decodable α] [Encodable β]

/-- A method ends if its handler does, with the codes of the request on its response. -/
theorem Service.answers_replying [Gzip.Encoder] {handler : Context → α → Work σ (Reply β)}
    (hends : ∀ context a c s, (handler context a).Ends c s fun _ _ _ => True) :
    (replying handler).Answers := by
  intro context request c s
  unfold replying
  split
  · exact Work.ends_pure rfl
  · refine Work.ends_bind ((hends context _ c s).mono fun reply _ _ _ => Work.ends_pure ?_)
    rw [Response.codes_withReply]
    rfl

theorem Service.answers_add {service : Service (Work σ)} {name key : String}
    {method method' : Method (Work σ)} (hm : method.Answers)
    (hs : ∀ m, service.methods.get? key = some m → Method.Answers m)
    (h : (service.add name method).methods.get? key = some method') : method'.Answers := by
  rw [add, KeyMap.get?_insert] at h
  split at h
  · cases h
    exact hm
  · exact hs _ h

theorem Service.Typed.answers [Gzip.Encoder] {service : Service (Work σ)} (hs : service.Typed)
    {name : String} {method : Method (Work σ)} (h : service.methods.get? name = some method) :
    method.Answers := by
  induction hs generalizing method with
  | named => cases h
  | addHandler hs key handler hends ih =>
    refine answers_add (answers_replying fun context a c s => ?_) (fun m => ih) h
    exact Work.ends_bind ((hends context a c s).mono fun _ _ _ _ => Work.ends_pure trivial)
  | addReplying hs key handler hends ih =>
    exact answers_add (answers_replying hends) (fun m => ih) h

end

/-- The handler never fails; it ends with a response that bears the codes of the request. -/
def Handler.Answers (handler : Handler (Work σ)) : Prop := ∀ context request c s,
  (handler context request).Ends c s fun outcome _ _ =>
    ∀ response, outcome = .ok response → response.codes = request.codes

/-- Services whose handlers end make a handler that answers. -/
theorem Dispatcher.answers_handler [Gzip.Encoder] {services : List (Service (Work σ))}
    (hs : ∀ s ∈ services, s.Typed) :
    (ofList services).handler.Answers := by
  have hdispatch (context : Context) (request : Request) (c : Clock) (s : σ) :
      ((ofList services).dispatch context request).Ends c s fun response _ _ =>
        response.codes = request.codes := by
    unfold dispatch
    split
    · exact Work.ends_pure rfl
    · rename_i method h
      obtain ⟨service, hservice, -, hm⟩ := mem_of_method? h
      exact (hs service hservice).answers hm context request c s
  intro context request c s
  refine Work.ends_bind ((hdispatch context request c s).mono fun response _ _ hr => ?_)
  refine Work.ends_pure fun response' h => ?_
  cases h
  exact hr

variable {handler : Handler (Work σ)} {cancels : Cancels} {request : Request} {c : Clock} {s : σ}

/-- Neither a deadline nor a failure leaves a request without an answer. -/
theorem Handler.Answers.respond (h : handler.Answers) :
    (handler.respond cancels request).Ends c s fun response _ _ =>
    response.codes = request.codes := by
  let context := Context.ofRequest request c 0
  have hbound : (context.bound cancels (handler context request)).Ends c s fun outcome _ _ =>
      ∀ response, outcome = .ok response → response.codes = request.codes :=
    Work.ends_bound (h context request c s) nofun
  refine Work.ends_clock (Work.ends_bind (hbound.mono fun outcome _ _ ho => ?_))
  cases outcome with
  | ok response => exact Work.ends_pure (ho response rfl)
  | error e => exact Work.ends_pure rfl

theorem Response.encode_failed {e : Error} (h : headSize + e.wireText.toUTF8.size < UInt32.size) :
    (failed request e).encode = .ok (failed request e).bytes :=
  encode_eq_ok.mpr ⟨h, Nat.zero_lt_succ _, rfl⟩

/-- The text of a failure to write a response is short. -/
theorem Response.size_of_encode {response : Response} {e : Error} (h : response.encode = .error e) :
    headSize + e.wireText.toUTF8.size < UInt32.size := by
  obtain hwords | ⟨words, -, hpure⟩ := bind_eq_error.mp h
  · unfold lengthWords at hwords
    split at hwords
    · cases hwords
      decide
    split at hwords
    · cases hwords
      decide
    · cases hwords
  · cases hpure

end RemoteCall
