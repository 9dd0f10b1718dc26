import RemoteCall.Registry.Leased
import RemoteCall.Proofs.Registry.Owners
import RemoteCall.Proofs.Store.Scan
import Mathlib.Data.List.Basic

/-! What a registry that keeps its instances in a store lists.

The store holds one entry for each key, that of the instance that was registered last under it. As
long as the lease is alive, an entry ends only when something else is registered or unregistered
under its key. -/

/-! The keys of instances

A key is made of the name and the address with a slash between them. As long as names have no slash
in them, the key tells the instance, and its beginning tells the service. With slashes it tells
neither. -/

namespace RemoteCall.LeasedRegistry
variable {i j : Instance} {service : String}

theorem toList_serviceKey : (serviceKey service).toList = "/micro/".toList ++
    (service.toList ++ ['/']) := by
  simp only [serviceKey, root, String.toList_append, List.append_assoc]
  rfl

theorem toList_instanceKey :
    (instanceKey i).toList = (serviceKey i.name).toList ++ i.address.toList :=
  String.toList_append

/-- The key of an instance begins with the key of its service. -/
theorem startsWith_instanceKey : Store.startsWith (instanceKey i) (serviceKey i.name) = true := by
  rw [Store.startsWith_iff, toList_instanceKey]
  exact List.prefix_append _ _

/-- A name ends at its first slash. -/
theorem takeWhile_name {name rest : List Char} (h : '/' ∉ name) :
    (name ++ '/' :: rest).takeWhile (· != '/') = name := by
  have hname : ∀ c ∈ name, (c != '/') = true := by
    intro c hc
    rw [bne_iff_ne]
    rintro rfl
    exact h hc
  rw [List.takeWhile_append_of_pos hname, List.takeWhile_cons_of_neg (by decide), List.append_nil]

/-- Without slashes in the names, only instances of the service have keys under its prefix. -/
theorem name_eq_of_startsWith (hi : '/' ∉ i.name.toList) (hs : '/' ∉ service.toList)
    (h : Store.startsWith (instanceKey i) (serviceKey service) = true) : i.name = service := by
  obtain ⟨rest, hrest⟩ := Store.startsWith_iff.mp h
  simp only [toList_instanceKey, toList_serviceKey, List.append_assoc, List.append_cancel_left_eq,
    List.singleton_append] at hrest
  have hname := congrArg (List.takeWhile (· != '/')) hrest
  rw [takeWhile_name hs, takeWhile_name hi] at hname
  exact (String.toList_inj.mp hname).symm

/-- Without slashes in the names, a key stands for one identity. -/
theorem instanceKey_eq_iff (hi : '/' ∉ i.name.toList) (hj : '/' ∉ j.name.toList) :
    instanceKey i = instanceKey j ↔ i.sameIdentity j = true := by
  rw [Instance.sameIdentity, Bool.and_eq_true, beq_iff_eq, beq_iff_eq]
  constructor
  · intro h
    have hname : i.name = j.name := name_eq_of_startsWith hi hj (h ▸ startsWith_instanceKey)
    refine ⟨hname, String.toList_inj.mp ?_⟩
    have hlists := congrArg String.toList h
    rw [toList_instanceKey, toList_instanceKey, hname] at hlists
    exact List.append_cancel_left hlists
  · rintro ⟨hname, haddress⟩
    rw [instanceKey, instanceKey, hname, haddress]

end RemoteCall.LeasedRegistry

namespace RemoteCall

/-! Reading the entries of a service -/

namespace LeasedRegistry
variable {s : Store} {service : String} {i : Instance}

theorem mapM_eq_ok {α β ε : Type} {f : α → Except ε β} {g : α → β} {l : List α}
    (h : ∀ x ∈ l, f x = .ok (g x)) : l.mapM f = .ok (l.map g) := by
  induction l with
  | nil => rfl
  | cons x rest ih =>
    rw [List.mapM_cons, h x List.mem_cons_self, ih fun y hy => h y (List.mem_cons_of_mem _ hy)]
    rfl

/-- Every instance can be written. -/
theorem exists_instanceText (i : Instance) : ∃ text, instanceText i = .ok text := by
  obtain ⟨name, address, weight, group⟩ := i
  cases weight with
  | none =>
    cases group with
    | none => exact ⟨_, rfl⟩
    | some g => exact ⟨_, rfl⟩
  | some w =>
    cases group with
    | none => exact ⟨_, rfl⟩
    | some g => exact ⟨_, rfl⟩

/-- The entry holds an instance, under the key of that instance. -/
def Legible (key : String) (e : Store.Entry) : Prop :=
  ∃ i, readInstance? e.value = some i ∧ instanceKey i = key

def texts (s : Store) (service : String) : KeyMap String :=
  (s.entries.filter fun key _ => Store.startsWith key (serviceKey service)).map Store.Entry.value

theorem mem_texts {key text : String} : (key, text) ∈ (texts s service).entries ↔
    (∃ e, s.entries.get? key = some e ∧ e.value = text) ∧
    Store.startsWith key (serviceKey service) = true := by
  rw [texts, ← KeyMap.get?_eq_some, KeyMap.get?_map, KeyMap.get?_filter, Option.map_eq_some_iff]
  constructor
  · rintro ⟨e, he, rfl⟩
    obtain ⟨he, hin⟩ := Option.filter_eq_some_iff.mp he
    exact ⟨⟨e, he, rfl⟩, hin⟩
  · rintro ⟨⟨e, he, rfl⟩, hin⟩
    exact ⟨e, Option.filter_eq_some_iff.mpr ⟨he, hin⟩, rfl⟩

/-- If all texts of a service can be read, a list has what was read, in key order. -/
theorem list_of_readable (hb : s.broken = false)
    (h : ∀ x ∈ (texts s service).entries, (readInstance? x.2).isSome = true) :
    list s service = .ok ((texts s service).entries.map fun x =>
      (readInstance? x.2).getD default) := by
  rw [list, Store.scan_eq hb]
  apply mapM_eq_ok
  intro x hx
  obtain ⟨i, hi⟩ := Option.isSome_iff_exists.mp (h x hx)
  simp only [hi, Option.getD_some]

/-- An instance is listed if its entry is there and all texts of its service can be read. -/
theorem mem_list {e : Store.Entry} (hb : s.broken = false)
    (he : s.entries.get? (instanceKey i) = some e) (hi : readInstance? e.value = some i)
    (h : ∀ key e, s.entries.get? key = some e → Store.startsWith key (serviceKey i.name) = true →
      (readInstance? e.value).isSome = true) : ∃ listed, list s i.name = .ok listed ∧
      i ∈ listed := by
  refine ⟨_, list_of_readable hb ?_, List.mem_map.mpr ⟨(instanceKey i, e.value), ?_, ?_⟩⟩
  · rintro ⟨key, text⟩ hx
    obtain ⟨⟨e, he, rfl⟩, hin⟩ := mem_texts.mp hx
    exact h key e he hin
  · exact mem_texts.mpr ⟨⟨e, he, rfl⟩, startsWith_instanceKey⟩
  · rw [hi, Option.getD_some]

/-- From entries that are legible a list takes each instance once, in key order. -/
theorem list_eq_ok (service : String) (hb : s.broken = false)
    (h : ∀ key e, s.entries.get? key = some e → Legible key e) :
    ∃ listed, list s service = .ok listed ∧ (listed.map instanceKey).Pairwise (· < ·) ∧
      ∀ i, i ∈ listed ↔ (∃ e, s.entries.get? (instanceKey i) = some e ∧
        readInstance? e.value = some i) ∧
        Store.startsWith (instanceKey i) (serviceKey service) = true := by
  let g (x : String × String) : Instance := (readInstance? x.2).getD default
  have hread (x : String × String) (hx : x ∈ (texts s service).entries) :
      readInstance? x.2 = some (g x) ∧ instanceKey (g x) = x.1 := by
    obtain ⟨key, text⟩ := x
    obtain ⟨⟨e, he, rfl⟩, -⟩ := mem_texts.mp hx
    obtain ⟨i, hi, hkey⟩ := h key e he
    have hg : g (key, e.value) = i := by
      simp only [g, hi, Option.getD_some]
    rw [hg]
    exact ⟨hi, hkey⟩
  refine ⟨(texts s service).entries.map g, ?_, ?_, fun i => ?_⟩
  · exact list_of_readable hb fun x hx => by rw [(hread x hx).1, Option.isSome_some]
  · -- each instance stands under its own key, and the entries are in key order
    have hkeys : ((texts s service).entries.map g).map instanceKey =
        (texts s service).entries.map Prod.fst := by
      rw [List.map_map]
      apply List.map_congr_left
      intro x hx
      exact (hread x hx).2
    rw [hkeys]
    exact List.pairwise_map.mpr (texts s service).sorted
  · rw [List.mem_map]
    constructor
    · rintro ⟨⟨key, text⟩, hx, rfl⟩
      obtain ⟨hi, hkey⟩ := hread _ hx
      obtain ⟨⟨e, he, rfl⟩, hin⟩ := mem_texts.mp hx
      rw [hkey]
      exact ⟨⟨e, he, hi⟩, hin⟩
    · rintro ⟨⟨e, he, hi⟩, hin⟩
      have hx : (instanceKey i, e.value) ∈ (texts s service).entries :=
        mem_texts.mpr ⟨⟨e, he, rfl⟩, hin⟩
      refine ⟨_, hx, ?_⟩
      exact Option.some_inj.mp ((hread _ hx).1.symm.trans hi)

end LeasedRegistry

namespace SharedStore
open LeasedRegistry (instanceKey serviceKey instanceText readInstance?)
variable {s : SharedStore} {a : Action} {actions before : List Action}
  {start : Int} {key service : String}
  {e : Store.Entry} {r l : Nat} {registry : LeasedRegistry} {i : Instance}
  {same other : Instance → Instance → Prop}

/-- Nobody writes to the store but through this registry. -/
def Action.KeepsTo (r : Nat) : Action → Prop
  | .put _ _ _ | .delete _ => False
  | .register m _ => m = r
  | _ => True

/-- In the run the instance was registered through the registry, and since then none that is the
same to somebody was registered or unregistered. -/
inductive Latest (start : Int) (r : Nat) (same : Instance → Instance → Prop) :
    List Action → Instance → Prop
  | registered (before : List Action) (i : Instance)
    (hr : r < ((new start).run before).registries.length) :
    Latest start r same (before ++ [.register r i]) i
  | since {actions : List Action} {i : Instance} (a : Action) (h : Latest start r same actions i)
    (ha : ∀ j, same i j → a ≠ .register r j ∧ a ≠ .unregister j) :
    Latest start r same (actions ++ [a]) i

/-- The last action of a run registered the instance, or left it registered. -/
theorem latest_concat : Latest start r same (before ++ [a]) i ↔
    (a = .register r i ∧ r < ((new start).run before).registries.length) ∨
      Latest start r same before i ∧ ∀ j, same i j → a ≠ .register r j ∧ a ≠ .unregister j := by
  constructor
  · intro h
    generalize heq : before ++ [a] = actions at h
    cases h with
    | registered first i hr =>
      obtain ⟨rfl, ha⟩ := List.append_inj' heq rfl
      cases ha
      exact .inl ⟨rfl, hr⟩
    | since b h hb =>
      obtain ⟨rfl, ha⟩ := List.append_inj' heq rfl
      cases ha
      exact .inr ⟨h, hb⟩
  · rintro (⟨rfl, hr⟩ | ⟨h, ha⟩)
    · exact .registered before i hr
    · exact .since a h ha

theorem Latest.mem (h : Latest start r same actions i) : .register r i ∈ actions := by
  induction h with
  | registered before i hr => exact List.mem_append_right _ List.mem_cons_self
  | since a h ha ih => exact List.mem_append_left _ ih

/-- Of the instances that occur in the run, no more are the same. -/
theorem Latest.imp (h : Latest start r same actions i)
    (hsame : ∀ j, (.register r j ∈ actions ∨ .unregister j ∈ actions) → other i j → same i j) :
    Latest start r other actions i := by
  induction h with
  | registered before i hr => exact .registered before i hr
  | since a h ha ih =>
    refine .since a (ih fun j hj => hsame j ?_) fun j hj => ?_
    · exact hj.imp (List.mem_append_left _) (List.mem_append_left _)
    · constructor
      · rintro rfl
        exact (ha j (hsame j (.inl (List.mem_append_right _ List.mem_cons_self)) hj)).1 rfl
      · rintro rfl
        exact (ha j (hsame j (.inr (List.mem_append_right _ List.mem_cons_self)) hj)).2 rfl

theorem Latest.lt_length (h : Latest start r same actions i) :
    r < ((new start).run actions).registries.length := by
  have hstep {before : List Action} (a : Action)
      (hr : r < ((new start).run before).registries.length) :
      r < ((new start).run (before ++ [a])).registries.length := by
    rw [run_append]
    exact Nat.lt_of_lt_of_le hr length_registries_step
  induction h with
  | registered before i hr => exact hstep _ hr
  | since a h ha ih => exact hstep a ih

/-! One action -/

theorem broken_step (hb : (s.step a).store.broken = false) : s.store.broken = false := by
  rw [store_step] at hb
  cases hreq : s.request? a with
  | none =>
    rw [hreq] at hb
    exact hb
  | some b =>
    rw [hreq] at hb
    exact Store.broken_acting (Store.acting s.store b) hb

theorem alive_step (h : s.Enrolled) (hl : l ∈ s.leases)
    (halive : ((s.step a).store.lease? l).isSome = true) : (s.store.lease? l).isSome = true := by
  rw [store_step] at halive
  cases hreq : s.request? a with
  | none =>
    rw [hreq] at halive
    exact halive
  | some b =>
    rw [hreq] at halive
    exact Store.alive_acting (Store.acting s.store b) (h.granted l hl) halive

theorem request?_eq_delete (h : s.request? a = some (.delete key)) :
    a = .delete key ∨ ∃ i, a = .unregister i ∧ instanceKey i = key := by
  cases a with
  | delete k =>
    cases h
    exact .inl rfl
  | unregister i =>
    cases h
    exact .inr ⟨i, rfl, rfl⟩
  | establish span =>
    simp only [request?] at h
    split at h
    · cases h
    · cases h
  | register r i =>
    simp only [request?] at h
    split at h
    · cases h
    · cases h
  | close r =>
    simp only [request?, Option.map_eq_some_iff] at h
    obtain ⟨registry, -, heq⟩ := h
    cases heq
  | _ => cases h

/-- To register is to put, under the lease of the registry. -/
theorem request?_register (hr : s.registries[r]? = some registry) (j : Instance) :
    ∃ text, instanceText j = .ok text ∧
      s.request? (.register r j) = some (.put (instanceKey j) text (some registry.lease)) := by
  obtain ⟨text, htext⟩ := LeasedRegistry.exists_instanceText j
  refine ⟨text, htext, ?_⟩
  rw [request?, hr, htext]

/-- What has no effect on the store is neither call of a registry. -/
theorem ne_of_request?_eq_none (hr : s.registries[r]? = some registry) (hreq : s.request? a = none)
    (j : Instance) : a ≠ .register r j ∧ a ≠ .unregister j := by
  constructor
  · rintro rfl
    obtain ⟨text, -, hput⟩ := request?_register hr j
    rw [hput] at hreq
    cases hreq
  · rintro rfl
    cases hreq

/-- Every call of the registry for a key ends what was there, so an action that does not is no such
call. -/
theorem ne_of_not_ends {b : Store.Action} (hr : s.registries[r]? = some registry)
    (hb : s.store.broken = false) (hbefore : (s.store.lease? registry.lease).isSome = true)
    (hreq : s.request? a = some b) (hends : ¬ s.store.Ends key e.lease b) {j : Instance}
    (hj : instanceKey j = key) : a ≠ .register r j ∧ a ≠ .unregister j := by
  constructor
  · rintro rfl
    obtain ⟨text, -, hput⟩ := request?_register hr j
    rw [hput] at hreq
    cases hreq
    exact hends (hj ▸ .put text _ (Store.succeeds_put hb hbefore))
  · rintro rfl
    cases hreq
    exact hends (hj ▸ .delete (Store.succeeds_delete hb))

/-- As long as its lease is alive, only a call for its key ends an entry. -/
theorem not_ends_of_ne {b : Store.Action} (hs : s.store.Sound) (hkeeps : a.KeepsTo r)
    (hreq : s.request? a = some b) (hafter : ((s.store.step b).lease? registry.lease).isSome = true)
    (hnone : ∀ j, instanceKey j = key → a ≠ .register r j ∧ a ≠ .unregister j) :
    ¬ s.store.Ends key (some registry.lease) b := by
  intro hends
  rcases hends.of_alive hs hafter with ⟨value, lease, rfl⟩ | rfl
  · rcases request?_eq_put hreq with rfl | ⟨m, i, -, rfl, hkey, -⟩
    · exact hkeeps.elim
    · obtain rfl : m = r := hkeeps
      exact (hnone i hkey).1 rfl
  · rcases request?_eq_delete hreq with rfl | ⟨i, rfl, hkey⟩
    · exact hkeeps.elim
    · exact (hnone i hkey).2 rfl

/-- What an action does to an entry that is attached to the lease of the registry. -/
theorem get?_step (key : String) (hs : s.store.Sound) (hkeeps : a.KeepsTo r)
    (hr : s.registries[r]? = some registry) (hb : s.store.broken = false)
    (hbefore : (s.store.lease? registry.lease).isSome = true)
    (hafter : ((s.step a).store.lease? registry.lease).isSome = true)
    (he : e.lease = some registry.lease) :
    (s.step a).store.entries.get? key = some e ↔
      (∃ i, a = .register r i ∧ instanceKey i = key ∧ instanceText i = .ok e.value) ∨
        s.store.entries.get? key = some e ∧ ∀ j, instanceKey j = key → a ≠ .register r j ∧
        a ≠ .unregister j := by
  rw [store_step] at hafter ⊢
  cases hreq : s.request? a with
  | none =>
    -- on both sides there is only what was there before
    have hnone := ne_of_request?_eq_none hr hreq
    constructor
    · exact fun hget => .inr ⟨hget, fun j _ => hnone j⟩
    · rintro (⟨i, ha, -⟩ | ⟨hget, -⟩)
      · exact absurd ha (hnone i).1
      · exact hget
  | some b =>
    rw [hreq] at hafter
    change (s.store.step b).entries.get? key = some e ↔ _
    rw [Store.get?_step hs]
    constructor
    · rintro (⟨rfl, -⟩ | ⟨hget, hends⟩)
      · rcases request?_eq_put hreq with rfl | ⟨m, i, -, rfl, hkey, htext, -, -⟩
        · exact hkeeps.elim
        · obtain rfl : m = r := hkeeps
          exact .inl ⟨i, rfl, hkey, htext⟩
      · exact .inr ⟨hget, fun j hj => ne_of_not_ends hr hb hbefore hreq hends hj⟩
    · rintro (⟨i, rfl, rfl, htext⟩ | ⟨hget, hnone⟩)
      · obtain ⟨text, htext', hput⟩ := request?_register hr i
        rw [htext] at htext'
        cases htext'
        rw [hput] at hreq
        cases hreq
        exact .inl ⟨by rw [he], Store.succeeds_put hb hbefore⟩
      · refine .inr ⟨hget, ?_⟩
        rw [he]
        exact not_ends_of_ne hs hkeeps hreq hafter hnone

/-- Only the registry puts entries in, and attaches them to its lease. -/
theorem get?_before (hs : s.store.Sound) (hkeeps : a.KeepsTo r)
    (he : (s.step a).store.entries.get? key = some e) : s.store.entries.get? key = some e ∨
      ∃ registry, s.registries[r]? = some registry ∧ e.lease = some registry.lease := by
  rw [store_step] at he
  cases hreq : s.request? a with
  | none =>
    rw [hreq] at he
    exact .inl he
  | some b =>
    rw [hreq] at he
    rcases (Store.get?_step hs).mp he with ⟨rfl, -⟩ | ⟨he, -⟩
    · rcases request?_eq_put hreq with rfl | ⟨m, i, registry, rfl, -, -, hr, hlease⟩
      · exact hkeeps.elim
      · obtain rfl : m = r := hkeeps
        exact .inr ⟨registry, hr, hlease⟩
    · exact .inl he

/-! Whole runs -/

/-- If nobody else writes, all that is in the store is attached to the lease of the registry. -/
theorem lease_of_get? (hkeeps : ∀ a ∈ actions, a.KeepsTo r)
    (he : ((new start).run actions).store.entries.get? key = some e) :
    ∃ l, e.lease = some l ∧ ((new start).run actions).leases[r]? = some l := by
  induction actions using List.reverseRecOn with
  | nil => cases he
  | append_singleton before a ih =>
    rw [run_append] at he ⊢
    rcases get?_before (sound_run before) (hkeeps a (by simp)) he with he | ⟨registry, hr, hlease⟩
    · obtain ⟨l, hel, hl⟩ := ih (fun b hb => hkeeps b (List.mem_append_left _ hb)) he
      exact ⟨l, hel, getElem?_leases_step hl⟩
    · exact ⟨_, hlease, getElem?_leases_step (getElem?_leases hr)⟩

/-- Two instances with the same key are one and the same to the store. -/
def SameKey (i j : Instance) : Prop := instanceKey j = instanceKey i

/-! Before the registry is there, there is nothing in the store. -/

theorem get?_ne_some_of_le (hkeeps : ∀ b ∈ actions, b.KeepsTo r) (ha : a.KeepsTo r)
    (hr : ((new start).run actions).registries.length ≤ r) :
    (((new start).run actions).step a).store.entries.get? key ≠ some e := by
  intro he
  rcases get?_before (sound_run actions) ha he with he | ⟨registry, hreg, -⟩
  · obtain ⟨l, -, hl⟩ := lease_of_get? hkeeps he
    rw [← length_leases] at hr
    exact absurd (List.getElem?_eq_some_iff.mp hl).1 (Nat.not_lt.mpr hr)
  · exact absurd (List.getElem?_eq_some_iff.mp hreg).1 (Nat.not_lt.mpr hr)

theorem not_latest_of_le {same : Instance → Instance → Prop}
    (hr : ((new start).run actions).registries.length ≤ r) :
    ¬ Latest start r same (actions ++ [a]) i := by
  intro hi
  rcases latest_concat.mp hi with ⟨-, hlt⟩ | ⟨hi, -⟩
  · exact absurd hlt (Nat.not_lt.mpr hr)
  · exact absurd hi.lt_length (Nat.not_lt.mpr hr)

/-- The store holds what was registered last under each key. -/
theorem get?_run (key : String) (e : Store.Entry) (hkeeps : ∀ a ∈ actions, a.KeepsTo r)
    (hb : ((new start).run actions).store.broken = false)
    (halive : ∀ l, ((new start).run actions).leases[r]? = some l →
      (((new start).run actions).store.lease? l).isSome = true) :
    ((new start).run actions).store.entries.get? key = some e ↔
      ∃ i, Latest start r SameKey actions i ∧ instanceKey i = key ∧ instanceText i = .ok e.value ∧
        ((new start).run actions).leases[r]? = e.lease := by
  -- on the run, from its end: a lease that is alive then was alive all the time
  induction actions using List.reverseRecOn generalizing e with
  | nil =>
    constructor
    · intro he
      cases he
    · rintro ⟨i, hi, -⟩
      exact absurd hi.mem List.not_mem_nil
  | append_singleton before a ih =>
    have hrun : (new start).run (before ++ [a]) = ((new start).run before).step a := run_append
    have hkeeps' : ∀ b ∈ before, b.KeepsTo r := fun b hb => hkeeps b (List.mem_append_left _ hb)
    have ha : a.KeepsTo r := hkeeps a (List.mem_append_right _ List.mem_cons_self)
    have hsound : ((new start).run before).store.Sound := sound_run before
    have hlease {e : Store.Entry}
        (he : ((new start).run (before ++ [a])).store.entries.get? key = some e) :=
      lease_of_get? hkeeps he
    rw [hrun] at hb halive hlease ⊢
    by_cases hr : r < ((new start).run before).registries.length
    · have hreg := List.getElem?_eq_getElem hr
      generalize ((new start).run before).registries[r] = registry at hreg
      have hl := getElem?_leases hreg
      have hl' := getElem?_leases_step (a := a) hl
      have hafter := halive _ hl'
      have hbefore := alive_step (enrolled_run before) (List.mem_of_getElem? hl) hafter
      have hstep {e : Store.Entry} (he : e.lease = some registry.lease) :=
        get?_step key hsound ha hreg (broken_step hb) hbefore hafter he
      have hih (e : Store.Entry) := ih e hkeeps' (broken_step hb) fun l hll => by
        rw [hl] at hll
        cases hll
        exact hbefore
      constructor
      · intro he
        obtain ⟨l, hel, hll⟩ := hlease he
        rw [hl'] at hll
        cases hll
        rcases (hstep hel).mp he with ⟨i, hreq, hkey, htext⟩ | ⟨he, hnone⟩
        · exact ⟨i, latest_concat.mpr (.inl ⟨hreq, hr⟩), hkey, htext, hl'.trans hel.symm⟩
        · obtain ⟨i, hi, hkey, htext, -⟩ := (hih e).mp he
          refine ⟨i, latest_concat.mpr (.inr ⟨hi, fun j hj => ?_⟩), hkey, htext, hl'.trans hel.symm⟩
          exact hnone j (Eq.trans hj hkey)
      · rintro ⟨i, hi, hkey, htext, hel⟩
        have hel' : e.lease = some registry.lease := hel.symm.trans hl'
        rw [hstep hel']
        rcases latest_concat.mp hi with ⟨hreq, -⟩ | ⟨hi, hnone⟩
        · exact .inl ⟨i, hreq, hkey, htext⟩
        · refine .inr ⟨(hih e).mpr ⟨i, hi, hkey, htext, hl.trans hel'.symm⟩, fun j hj => ?_⟩
          exact hnone j (Eq.trans hj hkey.symm)
    · have hle := Nat.le_of_not_lt hr
      constructor
      · intro he
        exact absurd he (get?_ne_some_of_le hkeeps' ha hle)
      · rintro ⟨i, hi, -⟩
        exact absurd hi (not_latest_of_le hle)

/-- No instance that the run speaks of has a slash in its name. -/
def PlainNames (r : Nat) (actions : List Action) : Prop :=
  ∀ i, (.register r i ∈ actions ∨ .unregister i ∈ actions) → '/' ∉ i.name.toList

/-- Without slashes in the names, the store takes for the same what has the same identity. -/
theorem latest_sameKey (h : PlainNames r actions) : Latest start r SameKey actions i ↔
    Latest start r (fun i j => i.sameIdentity j = true) actions i := by
  have hiff {same : Instance → Instance → Prop} (hi : Latest start r same actions i) (j : Instance)
      (hj : .register r j ∈ actions ∨ .unregister j ∈ actions) :
      SameKey i j ↔ i.sameIdentity j = true := by
    rw [SameKey, eq_comm]
    exact LeasedRegistry.instanceKey_eq_iff (h i (.inl hi.mem)) (h j hj)
  exact ⟨fun hi => hi.imp fun j hj => (hiff hi j hj).mpr, fun hi => hi.imp
    fun j hj => (hiff hi j hj).mp⟩

/-- As long as its lease is alive, a registry through which alone a store is written lists for a
service the instances that were registered last under keys that begin with the key of the service,
each once and in key order. If no name has a slash in it, these are the instances with the name of
the service that were registered last and not unregistered since, whatever was done with others. -/
theorem list_registered (service : String) (hkeeps : ∀ a ∈ actions, a.KeepsTo r)
    (hr : ((new start).run actions).registries[r]? = some registry)
    (halive : (((new start).run actions).store.lease? registry.lease).isSome = true)
    (hb : ((new start).run actions).store.broken = false)
    (hread : ∀ i text, .register r i ∈ actions → instanceText i = .ok text →
      readInstance? text = some i) :
    ∃ listed, LeasedRegistry.list ((new start).run actions).store service = .ok listed ∧
      (listed.map instanceKey).Pairwise (· < ·) ∧
      (∀ i, i ∈ listed ↔ Latest start r SameKey actions i ∧
        Store.startsWith (instanceKey i) (serviceKey service) = true) ∧
      ('/' ∉ service.toList → PlainNames r actions → ∀ i, i ∈ listed ↔
        i.name = service ∧ Latest start r (fun i j => i.sameIdentity j = true) actions i) := by
  have hl := getElem?_leases hr
  have hget (key : String) (e : Store.Entry) := get?_run key e hkeeps hb fun l hll => by
    rw [hl] at hll
    cases hll
    exact halive
  have hlegible (key : String) (e : Store.Entry)
      (he : ((new start).run actions).store.entries.get? key = some e) :
      LeasedRegistry.Legible key e := by
    obtain ⟨i, hi, hkey, htext, -⟩ := (hget key e).mp he
    exact ⟨i, hread i _ hi.mem htext, hkey⟩
  obtain ⟨listed, hlist, hsorted, hmem⟩ := LeasedRegistry.list_eq_ok service hb hlegible
  have hentry (i : Instance) :
      (∃ e, ((new start).run actions).store.entries.get? (instanceKey i) = some e ∧
      readInstance? e.value = some i) ↔ Latest start r SameKey actions i := by
    constructor
    · rintro ⟨e, he, hi⟩
      obtain ⟨j, hj, -, htext, -⟩ := (hget _ e).mp he
      obtain rfl : j = i := Option.some_inj.mp ((hread j _ hj.mem htext).symm.trans hi)
      exact hj
    · intro hi
      obtain ⟨text, htext⟩ := LeasedRegistry.exists_instanceText i
      exact ⟨⟨text, some registry.lease⟩, (hget _ _).mpr ⟨i, hi, rfl, htext, hl⟩,
        hread i text hi.mem htext⟩
  refine ⟨listed, hlist, hsorted, fun i => ?_, fun hservice hnames i => ?_⟩
  · rw [hmem, hentry]
  · rw [hmem, hentry, ← latest_sameKey hnames, and_comm]
    refine and_congr_left fun hi => ⟨fun h => ?_, ?_⟩
    · exact LeasedRegistry.name_eq_of_startsWith (hnames i (.inl hi.mem)) hservice h
    · rintro rfl
      exact LeasedRegistry.startsWith_instanceKey

def enrolling : List Action :=
  [.establish LeasedRegistry.defaultSpan,
    .register 0 { name := "a", address := "h:1", group := some "g" },
    .register 0 { name := "a", address := "h:2", weight := some 3 },
    .unregister { name := "a", address := "h:1" }]

/-- Of two instances with plain names the one that is still registered is listed. -/
theorem list_registered_plain :
    ∃ listed, LeasedRegistry.list ((new 0).run enrolling).store "a" = .ok listed ∧
      ∀ i, i ∈ listed ↔
        i.name = "a" ∧ Latest 0 0 (fun i j => i.sameIdentity j = true) enrolling i := by
  have hr : ((new 0).run enrolling).registries[0]? = some { lease := 1 } := by decide +kernel
  have hread (i : Instance) (text : String) (hi : .register 0 i ∈ enrolling)
      (htext : instanceText i = .ok text) : readInstance? text = some i := by
    simp only [enrolling, List.mem_cons, List.not_mem_nil, reduceCtorEq,
      Action.register.injEq, true_and, false_or, or_false] at hi
    rcases hi with rfl | rfl
    · cases htext
      decide +kernel
    · cases htext
      decide +kernel
  have hnames : PlainNames 0 enrolling := by
    intro i hi
    simp only [enrolling, List.mem_cons, List.not_mem_nil, reduceCtorEq,
      Action.register.injEq, true_and, Action.unregister.injEq, false_or, or_false] at hi
    rcases hi with (rfl | rfl) | rfl
    · decide +kernel
    · decide +kernel
    · decide +kernel
  obtain ⟨listed, hlist, -, -, hall⟩ := list_registered "a" (by simp [enrolling, Action.KeepsTo]) hr
    (by decide +kernel) (by decide +kernel) hread
  exact ⟨listed, hlist, hall (by decide +kernel) hnames⟩

/-- The instances have nothing in common, but the same key. -/
def colliding : List Action :=
  [.establish LeasedRegistry.defaultSpan, .register 0 { name := "a", address := "b/c" },
    .register 0 { name := "a/b", address := "c" }]

/-- With slashes in names, what is listed for a service may be an instance of another, in place of
its own. -/
theorem slash_confuses_services : ¬ ∀ (start : Int) (r : Nat) (registry : LeasedRegistry)
    (actions : List Action) (service : String), (∀ a ∈ actions, a.KeepsTo r) →
    ((new start).run actions).registries[r]? = some registry →
    (((new start).run actions).store.lease? registry.lease).isSome = true →
    ((new start).run actions).store.broken = false →
    (∀ i text, .register r i ∈ actions → instanceText i = .ok text → readInstance? text = some i) →
    ∃ listed, LeasedRegistry.list ((new start).run actions).store service = .ok listed ∧
      ∀ i, i ∈ listed ↔
        i.name = service ∧ Latest start r (fun i j => i.sameIdentity j = true) actions i := by
  intro h
  have hr : ((new 0).run colliding).registries[0]? = some { lease := 1 } := by decide +kernel
  have hread (i : Instance) (text : String) (hi : .register 0 i ∈ colliding)
      (htext : instanceText i = .ok text) : readInstance? text = some i := by
    simp only [colliding, List.mem_cons, List.not_mem_nil, reduceCtorEq,
      Action.register.injEq, true_and, false_or, or_false] at hi
    rcases hi with rfl | rfl
    · cases htext
      decide +kernel
    · cases htext
      decide +kernel
  have hother : (LeasedRegistry.list ((new 0).run colliding).store "a").toOption =
      some [{ name := "a/b", address := "c" }] := by
    decide +kernel
  obtain ⟨listed, hlist, hall⟩ :=
    h 0 0 { lease := 1 } colliding "a" (by simp [colliding, Action.KeepsTo]) hr
    (by decide +kernel) (by decide +kernel) hread
  rw [hlist] at hother
  cases hother
  have hname := ((hall { name := "a/b", address := "c" }).mp List.mem_cons_self).1
  exact absurd hname (by decide +kernel)

end SharedStore
end RemoteCall
