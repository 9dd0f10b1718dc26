import RemoteCall.Declaration
import RemoteCall.Proofs.Data.KeyMap
import RemoteCall.Proofs.Data.Outcome
import RemoteCall.Proofs.Declaration.WireName
import RemoteCall.Proofs.Server.Dispatch

/-! Which handler answers the call of a declared method.

The wire name leads to the handler of the last method that has it. So every method is answered by
its own handler exactly if no two of them share a wire name, which names of one spelling never do.
-/
namespace RemoteCall.Declaration
variable {m : Type → Type} {s : Service} {e : Expansion} {c : Call}
  {handlers : String → RemoteCall.Method m}

def Item.name? : Item → Option String
  | method m => some m.name
  | other => none

def Expansion.lastNamed (e : Expansion) (wire : String) : Option Call :=
  e.calls.reverse.find? fun c => c.wire == wire

theorem Method.name_of_check {d : Method} (h : d.check = .ok c) :
    c.name = d.name ∧ c.wire = wireName d.name := by
  unfold Method.check at h
  -- the checks in order: shape, bindings, context, request, result
  obtain ⟨-, h⟩ := throw_or_eq_ok.mp h
  dsimp only at h
  split at h
  case h_2 => cases h
  split at h
  case h_2 => cases h
  obtain ⟨-, h⟩ := throw_or_eq_ok.mp h
  obtain ⟨-, h⟩ := throw_or_eq_ok.mp h
  split at h
  case h_2 => cases h
  split at h
  case h_2 => cases h
  obtain rfl := Except.ok.inj h
  exact ⟨rfl, rfl⟩

theorem Item.name_of_check {i : Item} (h : i.check = .ok c) :
    i.name? = some c.name ∧ c.wire = wireName c.name := by
  cases i with
  | other => cases h
  | method d =>
    obtain ⟨hname, hwire⟩ := Method.name_of_check h
    refine ⟨congrArg some hname.symm, ?_⟩
    rw [hwire, hname]

/-- Each call of a declaration has the name of its item, and the name on the wire that comes of it.
-/
theorem names_of_mapM {items : List Item} {calls : List Call}
    (h : items.mapM Item.check = .ok calls) :
    items.map Item.name? = calls.map (fun c => some c.name) ∧ ∀ c ∈ calls,
    c.wire = wireName c.name := by
  induction items generalizing calls with
  | nil =>
    obtain rfl := Except.ok.inj h
    exact ⟨rfl, nofun⟩
  | cons i items ih =>
    rw [List.mapM_cons] at h
    obtain ⟨c, hc, h⟩ := bind_eq_ok.mp h
    obtain ⟨rest, hrest, h⟩ := bind_eq_ok.mp h
    obtain rfl := Except.ok.inj h
    obtain ⟨hname, hwire⟩ := Item.name_of_check hc
    obtain ⟨hnames, hwires⟩ := ih hrest
    rw [List.map_cons, List.map_cons, hname, hnames]
    exact ⟨rfl, List.forall_mem_cons.mpr ⟨hwire, hwires⟩⟩

/-- An accepted declaration has one call for each of its items, which is named like the method. -/
theorem names_of_expand (h : s.expand = .ok e) :
    s.items.map Item.name? = e.calls.map (fun c => some c.name) ∧
      ∀ c ∈ e.calls, c.wire = wireName c.name := by
  unfold Service.expand at h
  obtain ⟨-, h⟩ := throw_or_eq_ok.mp h
  obtain ⟨calls, hcalls, h⟩ := bind_eq_ok.mp h
  obtain rfl := Except.ok.inj h
  exact names_of_mapM hcalls

/-- The generated service holds the handlers of the methods in the table. -/
theorem Expansion.methods_service : (e.service handlers).methods =
    e.table.map fun c => handlers c.name := by
  have hfold (l : List Call) (s : RemoteCall.Service m) :
      (l.foldl (fun s c => s.add c.wire (handlers c.name)) s).methods =
        s.methods.insertAll (l.map fun c => (c.wire, handlers c.name)) := by
    induction l generalizing s with
    | nil => rfl
    | cons c l ih => exact ih _
  rw [table, KeyMap.map_ofList, List.map_map]
  exact hfold e.calls _

theorem Expansion.name_service : (e.service handlers).name = e.serviceName := by
  have hfold (l : List Call) (s : RemoteCall.Service m) :
      (l.foldl (fun s c => s.add c.wire (handlers c.name)) s).name = s.name := by
    induction l generalizing s with
    | nil => rfl
    | cons c l ih => exact ih _
  exact hfold e.calls _

/-- A wire name leads to the method that was declared last with it. -/
theorem Expansion.get?_table {wire : String} : e.table.get? wire = e.lastNamed wire := by
  rw [table, KeyMap.get?_ofList_eq_find?, ← List.map_reverse, List.find?_map, Option.map_map]
  exact Option.map_id'

theorem Expansion.lastNamed_of_mem (h : c ∈ e.calls) :
    ∃ last ∈ e.calls, e.lastNamed c.wire = some last ∧ last.wire = c.wire := by
  unfold lastNamed
  cases hlast : e.calls.reverse.find? fun d => d.wire == c.wire with
  | none =>
    have hne := List.find?_eq_none.mp hlast c (List.mem_reverse.mpr h)
    exact absurd (beq_self_eq_true _) hne
  | some last =>
    have hwire := List.find?_some hlast
    exact ⟨last, List.mem_reverse.mp (List.mem_of_find?_eq_some hlast), rfl, eq_of_beq hwire⟩

/-- Each method stands for its wire name exactly if no two methods share one. -/
theorem Expansion.lastNamed_eq_self_iff (hnames : (e.calls.map Call.name).Nodup) :
    (∀ c ∈ e.calls, e.lastNamed c.wire = some c) ↔ (e.calls.map Call.wire).Nodup := by
  constructor
  · intro h
    refine List.Nodup.map_on (fun c hc d hd hwire => ?_) (hnames.of_map _)
    have hsame : some c = some d := by rw [← h c hc, ← h d hd, hwire]
    exact Option.some.inj hsame
  · intro h c hc
    obtain ⟨last, hmem, hlast, hwire⟩ := lastNamed_of_mem hc
    rw [hlast, List.inj_on_of_nodup_map h hmem hc hwire]

/-- Methods with names of one spelling have wire names of their own. -/
theorem nodup_wire_of_isSnake (h : s.expand = .ok e) (hnames : (e.calls.map Call.name).Nodup)
    (hsnake : ∀ c ∈ e.calls, IsSnake c.name) : (e.calls.map Call.wire).Nodup := by
  obtain ⟨-, hwires⟩ := names_of_expand h
  refine List.Nodup.map_on (fun c hc d hd hwire => ?_) (hnames.of_map _)
  rw [hwires c hc, hwires d hd, wireName_inj (hsnake c hc) (hsnake d hd)] at hwire
  exact List.inj_on_of_nodup_map hnames hc hd hwire

theorem Expansion.methodNames_service : (e.service handlers).methodNames = e.table.keys := by
  rw [RemoteCall.Service.methodNames, methods_service, KeyMap.keys_map]

/-- If no two methods have one name on the wire, each of them is in the table. -/
theorem Expansion.keys_table (h : (e.calls.map Call.wire).Nodup) :
    e.table.keys.Perm (e.calls.map Call.wire) := by
  have hkeys : (e.calls.map fun c => (c.wire, c)).map Prod.fst = e.calls.map Call.wire := by
    rw [List.map_map]
    rfl
  have hperm := KeyMap.perm_insertAll (m := .empty) (l := e.calls.map fun c => (c.wire, c))
    (hkeys.symm ▸ h)
  rw [← hkeys]
  exact hperm.map Prod.fst

/-- Every call of a method is answered by the last declared method that has its wire name. So all
methods are answered by their own handlers, and have an entry each, exactly if their wire names are
all different, as they are when the methods are named by words in lower case with single underscores
between them. -/
theorem methods_answered (s : Service) (e : Expansion) (h : s.expand = .ok e)
    (hnames : (s.items.map Item.name?).Nodup) :
    s.items.map Item.name? = e.calls.map (fun c => some c.name) ∧
    (∀ c ∈ e.calls, c.wire = wireName c.name ∧ ∃ last ∈ e.calls, e.lastNamed c.wire = some last ∧
      ∀ {m : Type → Type} (handlers : String → RemoteCall.Method m) services request,
        (services.map RemoteCall.Service.name).Nodup → e.service handlers ∈ services →
        request.service = e.serviceName → request.method = c.wire →
        (Dispatcher.ofList services).method? request = .ok (handlers last.name)) ∧
    ((∀ c ∈ e.calls, e.lastNamed c.wire = some c) ↔ (e.calls.map Call.wire).Nodup) ∧
    ((e.calls.map Call.wire).Nodup → ∀ {m : Type → Type} (handlers : String → RemoteCall.Method m),
      (e.service handlers).methodNames.Perm (e.calls.map Call.wire)) ∧
    ((∀ c ∈ e.calls, IsSnake c.name) → (e.calls.map Call.wire).Nodup) := by
  obtain ⟨hitems, hwires⟩ := names_of_expand h
  have hcalls : (e.calls.map Call.name).Nodup := by
    rw [hitems] at hnames
    have hsome : e.calls.map (fun c => some c.name) = (e.calls.map Call.name).map some :=
      (List.map_map ..).symm
    exact (hsome ▸ hnames).of_map _
  refine ⟨hitems, fun c hc => ⟨hwires c hc, ?_⟩, Expansion.lastNamed_eq_self_iff hcalls,
    fun hw {_} handlers => ?_, nodup_wire_of_isSnake h hcalls⟩
  · obtain ⟨last, hmem, hlast, -⟩ := Expansion.lastNamed_of_mem hc
    refine ⟨last, hmem, hlast, ?_⟩
    intro m handlers services request hservices hservice hname hmethod
    refine Dispatcher.method?_of_mem hservices hservice ?_ ?_
    · rw [Expansion.name_service, hname]
    · rw [hmethod, Expansion.methods_service, KeyMap.get?_map, Expansion.get?_table, hlast]
      rfl
  · rw [Expansion.methodNames_service]
    exact Expansion.keys_table hw

def plainService (names : List String) : Service where
  name := "Users"
  items := names.map fun name => .method {
    name
    receiver := some .shared
    arguments := [⟨.plain "ctx", .named "Context"⟩, ⟨.plain "req", .named "Req"⟩]
    result := some (.path [("Result", some [.named "Resp"])]) }

/-- Two words, and two words of which one has a digit. -/
theorem methods_answered_apart :
    ∃ e, (plainService ["get_by_id", "list_v2"]).expand = .ok e ∧
      ((plainService ["get_by_id", "list_v2"]).items.map Item.name?).Nodup ∧
      e.calls.map Call.wire = ["GetById", "ListV2"] ∧
      ∀ c ∈ e.calls, e.lastNamed c.wire = some c := by
  obtain ⟨e, he⟩ : ∃ e, (plainService ["get_by_id", "list_v2"]).expand = .ok e := ⟨_, rfl⟩
  have hnames : ((plainService ["get_by_id", "list_v2"]).items.map Item.name?).Nodup := by
    decide
  obtain ⟨-, -, hown, -, -⟩ := methods_answered _ e he hnames
  obtain rfl := Except.ok.inj he
  have hwires : ["GetById", "ListV2"].Nodup := by decide
  exact ⟨_, rfl, hnames, by decide +kernel, hown.mpr (by decide +kernel)⟩

/-- Two methods with names of their own are accepted, and share one wire name: there is one entry
for both, and calls of the first method are answered by the second one. -/
theorem get_v2_answered_by_get_v_2 :
    ∃ e, (plainService ["get_v2", "get_v_2"]).expand = .ok e ∧
      ((plainService ["get_v2", "get_v_2"]).items.map Item.name?).Nodup ∧
      e.calls.map Call.name = ["get_v2", "get_v_2"] ∧ e.calls.map Call.wire = ["GetV2", "GetV2"] ∧
      ∀ {m : Type → Type} (handlers : String → RemoteCall.Method m),
        (e.service handlers).methodNames = ["GetV2"] ∧
        (e.service handlers).methods.get? "GetV2" = some (handlers "get_v_2") := by
  obtain ⟨e, he⟩ : ∃ e, (plainService ["get_v2", "get_v_2"]).expand = .ok e := ⟨_, rfl⟩
  refine ⟨e, he, by decide, ?_⟩
  obtain rfl := Except.ok.inj he
  refine ⟨by decide, by decide +kernel, fun handlers => ⟨?_, ?_⟩⟩
  · rw [Expansion.methodNames_service]
    decide +kernel
  · rw [Expansion.methods_service, KeyMap.get?_map, Expansion.get?_table]
    rfl

end RemoteCall.Declaration
