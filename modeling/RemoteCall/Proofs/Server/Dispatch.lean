import RemoteCall.Proofs.Data.KeyMap
import RemoteCall.Proofs.Work.Ends
import RemoteCall.Service

/-! Which method a request is dispatched to: the one of that name in the service of that name. -/
namespace RemoteCall.Dispatcher
variable {m : Type → Type} {services : List (Service m)} {request : Request}
  {s : Service m} {f : Method m}

/-- A method that is found belongs to a service that is there. -/
theorem mem_of_method? (h : (ofList services).method? request = .ok f) :
    ∃ s ∈ services, s.name = request.service ∧ s.methods.get? request.method = some f := by
  unfold method? at h
  split at h
  · cases h
  rename_i s hservice
  split at h
  · cases h
  rename_i f' hf
  cases h
  obtain ⟨s', hs, heq⟩ := List.mem_map.mp (KeyMap.mem_of_get?_ofList hservice)
  obtain rfl : s' = s := congrArg Prod.snd heq
  exact ⟨s', hs, congrArg Prod.fst heq, hf⟩

/-- A method of a service that is there is found. -/
theorem method?_of_mem (hnames : (services.map Service.name).Nodup) (hs : s ∈ services)
    (hname : s.name = request.service) (hf : s.methods.get? request.method = some f) :
    (ofList services).method? request = .ok f := by
  have hkeys : ((services.map fun s => (s.name, s)).map Prod.fst).Nodup := by
    rw [List.map_map]
    exact hnames
  have hservice : (ofList services).services.get? request.service = some s :=
    KeyMap.get?_ofList hkeys (List.mem_map.mpr ⟨s, hs, hname ▸ rfl⟩)
  simp only [method?, hservice, hf]

/-- Where the method is nowhere, the service or the method is told to be missing. -/
theorem method?_of_lacking
    (h : ∀ s ∈ services, s.name = request.service → s.methods.get? request.method = none) :
    (ofList services).method? request = .error (serviceNotFound request.service) ∨
      (ofList services).method? request =
        .error (methodNotFound request.service request.method) := by
  unfold method?
  cases hservice : (ofList services).services.get? request.service with
  | none => exact .inl rfl
  | some s =>
    obtain ⟨s', hs, heq⟩ := List.mem_map.mp (KeyMap.mem_of_get?_ofList hservice)
    obtain rfl : s' = s := congrArg Prod.snd heq
    have hnone := h s' hs (congrArg Prod.fst heq)
    dsimp only
    rw [hnone]
    exact .inr rfl

/-- A missing service or method is told by its name. -/
theorem wireText_of_lacking {service method : String} {e : Error}
    (h : e = serviceNotFound service ∨ e = methodNotFound service method) :
    e.wireText = e.text ∧ e.text.utf8ByteSize ≤
      (methodNotFound service method).text.utf8ByteSize := by
  -- both texts begin with words, and only the second goes on with the method
  have hservice : (serviceNotFound service).text.utf8ByteSize = 19 + service.utf8ByteSize :=
    String.utf8ByteSize_append
  have hmethod : (methodNotFound service method).text.utf8ByteSize =
      18 + service.utf8ByteSize + 1 + method.utf8ByteSize := by
    change ("method not found: " ++ service ++ "." ++ method).utf8ByteSize = _
    rw [String.utf8ByteSize_append, String.utf8ByteSize_append, String.utf8ByteSize_append]
    rfl
  have hsize : 0 < e.text.utf8ByteSize ∧
      e.text.utf8ByteSize ≤ (methodNotFound service method).text.utf8ByteSize := by
    obtain rfl | rfl := h
    · omega
    · omega
  refine ⟨if_neg fun hempty => ?_, hsize.2⟩
  have hzero := String.utf8ByteSize_eq_zero_iff.mpr (String.isEmpty_iff.mp hempty)
  omega

section
variable {σ α β : Type} [Decodable α] [Encodable β] {services : List (Service (Work σ))}
  {service : Service (Work σ)} {handler : Context → α → Work σ (Reply β)} {context : Context}
  {request : Request} {a : α} {c : Clock} {s : σ}

/-- A request runs the handler of its method on its argument, and nothing else. -/
theorem run_dispatch_of_mem [Gzip.Encoder] (hnames : (services.map Service.name).Nodup)
    (hs : service ∈ services) (hname : service.name = request.service)
    (hhandler : service.methods.get? request.method = some (Service.replying handler))
    (hread : request.codes.read request.data = .ok a) {reply : Reply β} {c' : Clock} {s' : σ}
    (hrun : (handler context a).run c s = (some reply, c', s')) :
    ((ofList services).dispatch context request).run c s =
      (some ((Response.replyTo request).withReply reply), c', s') := by
  rw [dispatch, method?_of_mem hnames hs hname hhandler]
  dsimp only
  rw [Service.replying, hread]
  exact Work.run_bind hrun

/-- A request for a method that is nowhere runs no handler. -/
theorem run_dispatch_of_lacking
    (h : ∀ s ∈ services, s.name = request.service → s.methods.get? request.method = none) :
    ∃ e, (e = serviceNotFound request.service ∨ e = methodNotFound request.service request.method) ∧
      ((ofList services).dispatch context request).run c s = (some (.failed request e), c, s) := by
  rw [dispatch]
  obtain hnone | hnone := method?_of_lacking h
  · exact ⟨_, .inl rfl, by rw [hnone]; rfl⟩
  · exact ⟨_, .inr rfl, by rw [hnone]; rfl⟩

end

end RemoteCall.Dispatcher
