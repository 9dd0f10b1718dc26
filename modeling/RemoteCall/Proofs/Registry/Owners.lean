import RemoteCall.Proofs.Registry.Shared
import RemoteCall.Proofs.Store.Leases

/-! What registries that share a store do to each other.

Whatever happens to the store happens by one of its own actions, so all that is known of stores
holds here as well. Each registry has a lease of its own, and closing it ends that lease and no
other. -/
namespace RemoteCall.SharedStore
variable {s : SharedStore} {a : Action} {actions : List Action} {start : Int} {key : String}
  {e : Store.Entry} {r : Nat} {registry : LeasedRegistry}

def new (start : Int) : SharedStore := { store := .new start }

def request? (s : SharedStore) : Action → Option Store.Action
  | .pass span => some (.pass span)
  | .sweep => some (.sweep [])
  | .grant span => some (.grant span)
  | .keepAlive lease => some (.keepAlive lease)
  | .revoke lease => some (.revoke lease)
  | .put key value lease => some (.put key value lease)
  | .delete key => some (.delete key)
  | .establish span =>
    if span.nanos < LeasedRegistry.minSpan.nanos then none else some (.grant span)
  | .register r i =>
    match s.registries[r]?, LeasedRegistry.instanceText i with
    | some registry, .ok text =>
      some (.put (LeasedRegistry.instanceKey i) text (some registry.lease))
    | _, _ => none
  | .unregister i => some (.delete (LeasedRegistry.instanceKey i))
  | .close r => s.registries[r]?.map fun registry => .revoke registry.lease
  | .subscribe _ _ | .look _ | .heedWatch _ | .forward _ | .heed _ | .receive _ | .leave _ => none

theorem store_establish {span : Duration} : (s.establish span).store =
    if span.nanos < LeasedRegistry.minSpan.nanos then s.store else (s.store.grant span).1 := by
  have hstore : (s.establish span).store = (LeasedRegistry.establish s.store span).1 := by
    unfold establish
    split
    · rename_i h
      rw [h]
    · rename_i h
      rw [h]
  rw [hstore, LeasedRegistry.establish]
  split
  · rfl
  · split
    · rename_i h
      rw [h]
    · rename_i h
      rw [h]
    · rename_i h
      rw [h]

/-- The store goes on by its own actions only. -/
theorem store_step : (s.step a).store = (s.request? a).elim s.store s.store.step := by
  cases a with
  | sweep => exact (Store.sweepFrom_nil s.store).symm
  | establish span =>
    rw [step, store_establish, request?]
    split
    · rfl
    · rfl
  | register r i =>
    simp only [step, register, request?]
    cases s.registries[r]? with
    | none => rfl
    | some registry =>
      dsimp only
      rw [LeasedRegistry.register]
      cases LeasedRegistry.instanceText i with
      | ok text => rfl
      | error e => rfl
  | subscribe r service =>
    simp only [step, subscribe, request?]
    split
    · rfl
    · rfl
  | close r =>
    simp only [step, close, request?]
    cases s.registries[r]? with
    | none => rfl
    | some registry => rfl
  | _ => rfl

def requests (s : SharedStore) : List Action → List Store.Action
  | [] => []
  | a :: rest => (s.request? a).toList ++ (s.step a).requests rest

/-- What actions do to the store is what their requests do. -/
theorem store_run : (s.run actions).store = s.store.run (s.requests actions) := by
  induction actions generalizing s with
  | nil => rfl
  | cons a rest ih =>
    rw [run_cons, ih, store_step, requests]
    cases s.request? a with
    | none => rfl
    | some b => rfl

theorem sound_run (actions : List Action) : ((new start).run actions).store.Sound := by
  rw [store_run]
  exact Store.sound_run Store.sound_new _

/-! The leases of registries -/

def leases (s : SharedStore) : List Nat := s.registries.map LeasedRegistry.lease

theorem leases_establish {span : Duration} : (s.establish span).leases = s.leases ∨
    (s.establish span).leases = s.leases ++ [s.store.granted + 1] ∧
      (s.establish span).store.granted = s.store.granted + 1 := by
  unfold establish LeasedRegistry.establish
  split
  · rename_i store registry h
    split at h
    · cases h
    have hgrant := Store.acting_grant (s := s.store) span
    split at h
    · rename_i t lease hg
      cases h
      rw [hg] at hgrant
      cases hgrant with
      | grants =>
        right
        refine ⟨?_, rfl⟩
        rw [leases, List.map_append]
        rfl
    · cases h
    · cases h
  · exact .inl rfl

/-- A registry keeps its lease, and a new one gets a number that is larger than all before. -/
theorem leases_step : (s.step a).leases = s.leases ∨
    (s.step a).leases = s.leases ++ [s.store.granted + 1] ∧
      (s.step a).store.granted = s.store.granted + 1 := by
  cases a with
  | establish span => exact leases_establish
  | register r i =>
    left
    simp only [step, register]
    split
    · rfl
    · rfl
  | subscribe r service =>
    left
    simp only [step, subscribe]
    split
    · rfl
    · rfl
  | close r =>
    left
    simp only [step, close]
    split
    · rename_i registry hr
      obtain ⟨hlt, rfl⟩ := List.getElem?_eq_some_iff.mp hr
      have hlease : (s.registries[r].close s.store).1.lease = s.registries[r].lease := rfl
      change (s.registries.set r _).map LeasedRegistry.lease = s.leases
      rw [List.map_set, hlease, ← List.getElem_map LeasedRegistry.lease, List.set_getElem_self]
      · rfl
      · rwa [List.length_map]
    · rfl
  | _ => exact .inl rfl

theorem granted_step : s.store.granted ≤ (s.step a).store.granted := by
  rw [store_step]
  cases s.request? a with
  | none => exact Nat.le_refl _
  | some b => exact (Store.granted_acting (Store.acting s.store b)).1

structure Enrolled (s : SharedStore) : Prop where
  granted : ∀ l ∈ s.leases, l ≤ s.store.granted
  increasing : s.leases.Pairwise (· < ·)

/-- Every action leaves each registry a lease of its own. -/
theorem enrolled_step (h : s.Enrolled) : (s.step a).Enrolled := by
  rcases leases_step (s := s) (a := a) with hsame | ⟨hnew, hgranted⟩
  · refine ⟨fun l hl => ?_, hsame ▸ h.increasing⟩
    exact Nat.le_trans (h.granted l (hsame ▸ hl)) granted_step
  · refine ⟨fun l hl => ?_, ?_⟩
    · rw [hnew, List.mem_append, List.mem_singleton] at hl
      rw [hgranted]
      rcases hl with hl | rfl
      · exact Nat.le_succ_of_le (h.granted l hl)
      · exact Nat.le_refl _
    · rw [hnew, List.pairwise_append]
      refine ⟨h.increasing, List.pairwise_singleton _ _, fun l hl m hm => ?_⟩
      obtain rfl := List.mem_singleton.mp hm
      exact Nat.lt_succ_of_le (h.granted l hl)

theorem enrolled_run (actions : List Action) : ((new start).run actions).Enrolled := by
  induction actions using List.reverseRecOn with
  | nil => exact ⟨nofun, List.Pairwise.nil⟩
  | append_singleton before a ih =>
    rw [run_append]
    exact enrolled_step ih

theorem leases_prefix : s.leases <+: (s.step a).leases := by
  rcases leases_step (s := s) (a := a) with hsame | ⟨hnew, -⟩
  · exact hsame ▸ List.prefix_refl _
  · exact hnew ▸ List.prefix_append _ _

theorem length_leases : s.leases.length = s.registries.length := List.length_map ..

theorem length_registries_step : s.registries.length ≤ (s.step a).registries.length := by
  rw [← length_leases, ← length_leases]
  exact leases_prefix.length_le

theorem getElem?_leases (hr : s.registries[r]? = some registry) :
    s.leases[r]? = some registry.lease := by
  rw [leases, List.getElem?_map, hr]
  rfl

theorem getElem?_leases_step {l : Nat} (hl : s.leases[r]? = some l) :
    (s.step a).leases[r]? = some l := by
  obtain ⟨rest, hrest⟩ := leases_prefix (s := s) (a := a)
  rw [← hrest, List.getElem?_append_left (List.getElem?_eq_some_iff.mp hl).1]
  exact hl

/-- No two registries have the same lease. -/
theorem Enrolled.eq (h : s.Enrolled) {m l : Nat} (hr : s.leases[r]? = some l)
    (hm : s.leases[m]? = some l) : m = r := by
  have hnodup := h.increasing.imp Nat.ne_of_lt
  obtain ⟨hlt, hget⟩ := List.getElem?_eq_some_iff.mp hr
  obtain ⟨hlt', hget'⟩ := List.getElem?_eq_some_iff.mp hm
  exact (List.Nodup.getElem_inj_iff hnodup).mp (hget'.trans hget.symm)

/-! Who wrote a key -/

def Writes (s : SharedStore) (key : String) (a : Action) : Prop :=
  ∃ value lease, s.request? a = some (.put key value lease) ∧
    s.store.Succeeds (.put key value lease)

/-- Only two actions put anything. -/
theorem request?_eq_put {value : String} {lease : Option Nat}
    (h : s.request? a = some (.put key value lease)) : a = .put key value lease ∨
      ∃ r i registry, a = .register r i ∧ LeasedRegistry.instanceKey i = key ∧
        LeasedRegistry.instanceText i = .ok value ∧ s.registries[r]? = some registry ∧
          lease = some registry.lease := by
  cases a with
  | put k v l =>
    cases h
    exact .inl rfl
  | register r i =>
    simp only [request?] at h
    split at h
    · rename_i registry text hr htext
      cases h
      exact .inr ⟨r, i, registry, rfl, rfl, htext, hr, rfl⟩
    · cases h
  | establish span =>
    simp only [request?] at h
    split at h
    · cases h
    · cases h
  | close r =>
    simp only [request?, Option.map_eq_some_iff] at h
    obtain ⟨registry, -, heq⟩ := h
    cases heq
  | _ => cases h

/-- In the run this action was the last to write the key. -/
inductive LastWrite (start : Int) : List Action → String → Action → Prop
  | made {before : List Action} {key : String} {a : Action}
    (h : ((new start).run before).Writes key a) :
    LastWrite start (before ++ [a]) key a
  | since {actions : List Action} {key : String} {a : Action} (b : Action)
    (h : LastWrite start actions key a) (hb : ¬ ((new start).run actions).Writes key b) :
    LastWrite start (actions ++ [b]) key a

/-- The action writes the key through a registry, or for anybody under the lease with this number.
-/
inductive Names (r lease : Nat) (key : String) : Action → Prop
  | register (i : Instance) (hkey : LeasedRegistry.instanceKey i = key) :
    Names r lease key (.register r i)
  | put (value : String) : Names r lease key (.put key value (some lease))

/-- A key that is attached to a lease was last written under that lease. -/
theorem lastWrite_of_get? {l : Nat} (he : ((new start).run actions).store.entries.get? key = some e)
    (hl : e.lease = some l) : ∃ a, LastWrite start actions key a ∧
      ((∃ value, a = .put key value (some l)) ∨ ∃ r i, a = .register r i ∧
        LeasedRegistry.instanceKey i = key ∧ ((new start).run actions).leases[r]? = some l) := by
  -- on the run, from its end: the last action wrote the key, or what wrote it before still counts
  induction actions using List.reverseRecOn with
  | nil => cases he
  | append_singleton before a ih =>
    have hrun : (new start).run (before ++ [a]) = ((new start).run before).step a := run_append
    have hkeep {r : Nat} (hr : ((new start).run before).leases[r]? = some l) :
        ((new start).run (before ++ [a])).leases[r]? = some l := hrun ▸ getElem?_leases_step hr
    -- what stood before and was not written again keeps its writer
    have hsince (hb : ¬ ((new start).run before).Writes key a)
        (he : ((new start).run before).store.entries.get? key = some e) :
        ∃ b, LastWrite start (before ++ [a]) key b ∧
          ((∃ value, b = .put key value (some l)) ∨ ∃ r i, b = .register r i ∧
            LeasedRegistry.instanceKey i = key ∧
            ((new start).run (before ++ [a])).leases[r]? = some l) := by
      obtain ⟨b, hlast, hcase⟩ := ih he
      refine ⟨b, .since a hlast hb, hcase.imp_right ?_⟩
      rintro ⟨r, i, hb, hkey, hr⟩
      exact ⟨r, i, hb, hkey, hkeep hr⟩
    rw [hrun, store_step] at he
    cases hreq : ((new start).run before).request? a with
    | none =>
      rw [hreq] at he
      refine hsince ?_ he
      rintro ⟨value, lease, hw, -⟩
      rw [hreq] at hw
      cases hw
    | some b =>
      rw [hreq] at he
      rcases (Store.get?_step (sound_run before)).mp he with ⟨rfl, hs⟩ | ⟨he, hends⟩
      · refine ⟨a, .made ⟨_, _, hreq, hs⟩, ?_⟩
        rw [hl] at hreq
        rcases request?_eq_put hreq with rfl | ⟨r, i, registry, rfl, hkey, -, hr, hlease⟩
        · exact .inl ⟨_, rfl⟩
        · cases hlease
          exact .inr ⟨r, i, rfl, hkey, hkeep (getElem?_leases hr)⟩
      · refine hsince ?_ he
        rintro ⟨value, lease, hw, hs⟩
        rw [hreq] at hw
        cases hw
        exact hends (.put value lease hs)

/-- Closing a registry takes away only keys that were last written through it or under its lease. -/
theorem get?_close (hr : ((new start).run actions).registries[r]? = some registry)
    (he : ((new start).run actions).store.entries.get? key = some e) :
    ((new start).run (actions ++ [.close r])).store.entries.get? key = some e ∨
      ∃ a, LastWrite start actions key a ∧ Names r registry.lease key a := by
  have hstep : ((new start).run (actions ++ [.close r])).store =
      ((new start).run actions).store.step (.revoke registry.lease) := by
    rw [run_append]
    change (((new start).run actions).step (.close r)).store = _
    rw [store_step, request?, hr]
    rfl
  rw [hstep, Store.get?_step (sound_run actions)]
  by_cases hl : e.lease = some registry.lease
  · obtain ⟨a, hlast, hcase⟩ := lastWrite_of_get? he hl
    refine .inr ⟨a, hlast, ?_⟩
    rcases hcase with ⟨value, rfl⟩ | ⟨r', i, rfl, hkey, hr'⟩
    · exact .put value
    · obtain rfl : r' = r := (enrolled_run actions).eq (getElem?_leases hr) hr'
      exact .register i hkey
  · refine .inl (.inr ⟨he, fun hends => ?_⟩)
    cases hends with
    | revoke l hl' _ => exact hl hl'

/-- In a store a key is attached only to a lease that is alive, and it is there exactly if it was
put and nothing has ended that since. The end of a lease, by request or when its time has come,
takes away the keys that depend on it and nothing else. No lease number is given twice, and what
fails changes nothing. Of registries that share a store, one that closes takes away only what was
last written through it. -/
theorem keys_follow_leases (start : Int) :
    (∀ (actions : List Store.Action) (s : Store), (Store.new start).run actions = s →
      (∀ key e l, s.entries.get? key = some e → e.lease = some l → (s.lease? l).isSome = true) ∧
      (∀ key e, s.entries.get? key = some e ↔ Store.Standing start actions key e) ∧
      (∀ lease, s.Succeeds (.revoke lease) → s.Frees (s.step (.revoke lease)) (· = lease)) ∧
      (∀ first, s.broken = false → s.Frees (s.step (.sweep first)) s.IsExpired) ∧
      ((Store.new start).grants actions).Pairwise (· < ·) ∧
      ∀ a err, (s.act a).2 = .answer (.error err) → s.step a = s) ∧
    ∀ (actions : List Action) (r : Nat) (registry : LeasedRegistry) (key : String)
      (e : Store.Entry),
      ((new start).run actions).registries[r]? = some registry →
      ((new start).run actions).store.entries.get? key = some e →
      ((new start).run (actions ++ [.close r])).store.entries.get? key = some e ∨
        ∃ a, LastWrite start actions key a ∧ Names r registry.lease key a := by
  constructor
  · rintro actions s rfl
    have hsound : ((Store.new start).run actions).Sound := Store.sound_run Store.sound_new actions
    refine ⟨hsound.alive, fun key e => Store.get?_run, fun lease hs => ?_, fun first hb => ?_,
      (Store.grants_increasing _ actions).1, fun a err h => ?_⟩
    · exact Store.frees_of_revoke hs
    · exact Store.frees_of_sweep hsound hb
    · exact Store.eq_of_error (h ▸ Store.acting _ a)
  · intro actions r registry key e hr he
    exact get?_close hr he

def attaching : List Store.Action := [.grant (.ofSecs 1), .put "k" "v" (some 1)]

def overwriting : List Action :=
  [.establish LeasedRegistry.defaultSpan, .establish LeasedRegistry.defaultSpan,
    .register 0 { name := "a", address := "h:1" }, .register 1 { name := "a", address := "h:1" }]

/-- A key goes with its lease by revoking or sweeping, a lease that is not there takes none, and
what a registry wrote last outlives another one. -/
theorem keys_follow_leases_overwritten :
    Store.Standing 0 attaching "k" ⟨"v", some 1⟩ ∧
    ((Store.new 0).run attaching).Frees (((Store.new 0).run attaching).step (.revoke 1)) (· = 1) ∧
    ((Store.new 0).run attaching).Frees (((Store.new 0).run attaching).step (.sweep []))
      ((Store.new 0).run attaching).IsExpired ∧
    ((Store.new 0).run attaching).step (.put "k" "w" (some 2)) = (Store.new 0).run attaching ∧
    ∃ e, ((new 0).run overwriting).store.entries.get? "/micro/a/h:1" = some e ∧
      (((new 0).run (overwriting ++ [.close 0])).store.entries.get? "/micro/a/h:1" = some e ∨
        ∃ a, LastWrite 0 overwriting "/micro/a/h:1" a ∧ Names 0 1 "/micro/a/h:1" a) := by
  obtain ⟨hstore, hclose⟩ := keys_follow_leases 0
  obtain ⟨-, hstanding, hrevoke, hsweep, -, hfail⟩ := hstore attaching _ rfl
  refine ⟨(hstanding _ _).mp (by decide +kernel), ?_, hsweep [] rfl, hfail _ _ rfl, ?_⟩
  · exact hrevoke 1 ⟨none, rfl⟩
  · have hsome : (((new 0).run overwriting).store.entries.get? "/micro/a/h:1").isSome = true := by
      decide +kernel
    obtain ⟨e, he⟩ := Option.isSome_iff_exists.mp hsome
    exact ⟨e, he, hclose overwriting 0 { lease := 1 } _ _ (by decide +kernel) he⟩

end RemoteCall.SharedStore
