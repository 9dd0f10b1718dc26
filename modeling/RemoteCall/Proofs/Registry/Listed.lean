import RemoteCall.Registry.Listed
import Mathlib.Data.List.Pairwise

/-! What the subscribers of a listed registry are told.

Every change of the list is announced to all of them, and what is not announced has not changed: as
long as the instances have identities of their own, the instances of a service stay the same unless
some event is about one of them. -/
namespace RemoteCall

namespace Instance
variable {i j k : Instance}

theorem sameIdentity_iff : i.sameIdentity j = true ↔ i.name = j.name ∧ i.address = j.address := by
  rw [sameIdentity, Bool.and_eq_true, beq_iff_eq, beq_iff_eq]

theorem sameIdentity_self : i.sameIdentity i = true := sameIdentity_iff.mpr ⟨rfl, rfl⟩

theorem sameIdentity_comm : i.sameIdentity j = j.sameIdentity i := by
  rw [Bool.eq_iff_iff, sameIdentity_iff, sameIdentity_iff, eq_comm, eq_comm (a := i.address)]

def Distinct (instances : List Instance) : Prop :=
  instances.Pairwise fun a b => a.sameIdentity b = false

/-- There is one instance to an identity. -/
theorem Distinct.eq {instances : List Instance} (h : Distinct instances) (hi : i ∈ instances)
    (hj : j ∈ instances) (hsame : i.sameIdentity j = true) : i = j := by
  by_contra hne
  have : Std.Symm fun a b : Instance => a.sameIdentity b = false :=
    ⟨fun _ _ hab => sameIdentity_comm.trans hab⟩
  have hother : i.sameIdentity j = false := List.Pairwise.forall h hi hj hne
  rw [hother] at hsame
  cases hsame

end Instance

namespace Subscription
variable {s : Subscription} {events : List Event} {e : Event}

def wants (s : Subscription) (e : Event) : Bool := s.service == e.inst.name

theorem send_of_open (h : s.isOpen = true) :
    s.send e = { s with waiting := s.waiting ++ [e].filter s.wants } := by
  by_cases hwants : s.wants e = true
  · have hname : (s.service == e.inst.name) = true := hwants
    rw [send, h, hname, Bool.true_and, if_pos rfl,
      List.filter_cons_of_pos hwants, List.filter_nil, ← h]
  · have hname : (s.service == e.inst.name) = false := eq_false_of_ne_true hwants
    rw [send, hname, Bool.and_false, if_neg Bool.false_ne_true, List.filter_cons_of_neg hwants,
      List.filter_nil, List.append_nil]

/-- As long as it is open, a subscription gets the events about its service, in order. -/
theorem foldl_send (h : s.isOpen = true) :
    events.foldl send s = { s with waiting := s.waiting ++ events.filter s.wants } := by
  induction events generalizing s with
  | nil =>
    rw [List.filter_nil, List.append_nil]
    rfl
  | cons e rest ih =>
    have hsend : s.send e = { s with waiting := s.waiting ++ [e].filter s.wants } := send_of_open h
    have hopen : (s.send e).isOpen = true := hsend ▸ h
    have hwants : (s.send e).wants = s.wants := by
      rw [hsend]
      rfl
    rw [List.foldl_cons, ih hopen, hwants, hsend, List.append_assoc, ← List.filter_append]
    rfl

end Subscription

namespace ListedRegistry
open Instance (Distinct)
variable {r t : ListedRegistry} {i : Instance} {instances : List Instance}
  {events : List Event} {n : Nat}
  {service : String}

theorem subscription_of_open (h : (r.subscription n).isOpen = true) :
    r.subscriptions[n]? = some (r.subscription n) := by
  rw [subscription] at h ⊢
  cases hn : r.subscriptions[n]? with
  | none =>
    rw [hn] at h
    cases h
  | some sub => rfl

/-- Taking an event leaves the others where they are. -/
theorem subscription_receive (h : (r.subscription n).isOpen = true) :
    (r.receive n).2.subscription n =
    { r.subscription n with waiting := (r.subscription n).waiting.drop 1 } := by
  rw [subscription, receive, List.getElem?_modify, subscription_of_open h]
  simp only [↓reduceIte]
  rfl

theorem subscription_subscribe :
    (r.subscribe service).1.subscription (r.subscribe service).2 = { service } := by
  rw [subscription, subscribe, List.getElem?_concat_length]
  rfl

theorem subscription_announce {e : Event} :
    (r.announce e).subscription n = (r.subscription n).send e := by
  rw [subscription, subscription, announce, List.getElem?_map]
  cases r.subscriptions[n]? with
  | none => rfl
  | some s => rfl

theorem subscription_foldl_announce :
    (events.foldl announce r).subscription n =
      events.foldl Subscription.send (r.subscription n) := by
  induction events generalizing r with
  | nil => rfl
  | cons e rest ih => rw [List.foldl_cons, ih, subscription_announce, List.foldl_cons]

theorem instances_foldl_announce : (events.foldl announce r).instances = r.instances := by
  induction events generalizing r with
  | nil => rfl
  | cons e rest ih =>
    rw [List.foldl_cons, ih]
    rfl

theorem mem_list : i ∈ r.list service ↔ i ∈ r.instances ∧ i.name = service := by
  rw [list, List.mem_filter, beq_iff_eq]

/-- The registry changes and says so to its subscribers. -/
structure Changes (r t : ListedRegistry) (events : List Event) : Prop where
  told : ∀ n, t.subscription n = events.foldl Subscription.send (r.subscription n)
  distinct : Distinct t.instances
  kept : ∀ service, (∀ e ∈ events, e.inst.name ≠ service) →
    ∀ i, i ∈ t.list service ↔ i ∈ r.list service

theorem mem_without : i ∈ r.without j ↔ i ∈ r.instances ∧ i.sameIdentity j = false := by
  rw [without, List.mem_filter, Bool.not_eq_true']

/-- Only the service of the instance loses anything. -/
theorem mem_without_of_ne {j : Instance} (hne : i.name ≠ j.name) :
    i ∈ r.without j ↔ i ∈ r.instances := by
  rw [mem_without, and_iff_left_iff_imp]
  intro _
  rw [← Bool.not_eq_true, Instance.sameIdentity_iff]
  exact fun hsame => hne hsame.1

theorem mem_unregister : i ∈ (r.unregister j).instances ↔ i ∈ r.instances ∧
    i.sameIdentity j = false := by
  rw [unregister]
  split
  · exact mem_without
  · rename_i hnone
    -- nothing of that identity was there
    rw [Bool.not_eq_true, List.any_eq_false] at hnone
    exact ⟨fun hi => ⟨hi, eq_false_of_ne_true (hnone i hi)⟩, fun hi => hi.1⟩

/-- What registering changes is announced. -/
theorem changes_register (h : Distinct r.instances) (i : Instance) :
    r.Changes (r.register i) [⟨.add, i⟩] := by
  refine ⟨fun n => subscription_announce, ?_, fun service hquiet j => ?_⟩
  · change Distinct (r.without i ++ [i])
    rw [Distinct, List.pairwise_append]
    refine ⟨h.filter _, List.pairwise_singleton _ _, fun j hj k hk => ?_⟩
    obtain rfl := List.mem_singleton.mp hk
    exact (mem_without.mp hj).2
  · have hi : i.name ≠ service := hquiet _ List.mem_cons_self
    rw [mem_list, mem_list, and_congr_left_iff]
    rintro rfl
    change j ∈ r.without i ++ [i] ↔ j ∈ r.instances
    rw [List.mem_append, List.mem_singleton, mem_without_of_ne hi.symm]
    constructor
    · rintro (hj | rfl)
      · exact hj
      · exact absurd rfl hi
    · exact fun hj => .inl hj

/-- What unregistering changes is announced. -/
theorem changes_unregister (h : Distinct r.instances) (i : Instance) :
    ∃ events, r.Changes (r.unregister i) events := by
  unfold unregister
  split
  · refine ⟨[⟨.delete, i⟩], fun n => subscription_announce, h.filter _, fun service hquiet j => ?_⟩
    have hi : i.name ≠ service := hquiet _ List.mem_cons_self
    rw [mem_list, mem_list, and_congr_left_iff]
    rintro rfl
    exact mem_without_of_ne hi.symm
  · exact ⟨[], fun n => rfl, h, fun service _ j => Iff.rfl⟩

theorem delete_mem_changes {old new : List Instance} {o : Instance} (ho : o ∈ old)
    (hnew : ∀ n ∈ new, n.sameIdentity o = false) : ⟨.delete, o⟩ ∈ changes old new := by
  apply List.mem_append_left
  apply List.mem_map_of_mem
  apply List.mem_filter.mpr
  refine ⟨ho, ?_⟩
  rw [Bool.not_eq_true', List.any_eq_false]
  intro n hn
  rw [hnew n hn]
  exact Bool.false_ne_true

theorem add_mem_changes {old new : List Instance} {n : Instance} (hn : n ∈ new) (hold : n ∉ old) :
    ⟨.add, n⟩ ∈ changes old new := by
  apply List.mem_append_right
  apply List.mem_map_of_mem
  apply List.mem_filter.mpr
  refine ⟨hn, ?_⟩
  rw [Bool.not_eq_true', ← Bool.not_eq_true, List.contains_iff_mem]
  exact hold

/-- What an update changes is announced. -/
theorem changes_update (h : Distinct r.instances) (hnew : Distinct instances) :
    r.Changes (r.update instances) (changes r.instances instances) := by
  refine ⟨fun n => subscription_foldl_announce, ?_, fun service hquiet i => ?_⟩
  · rw [update, instances_foldl_announce]
    exact hnew
  · rw [mem_list, mem_list, update, instances_foldl_announce, and_congr_left_iff]
    rintro rfl
    constructor
    · -- a new instance would be announced
      intro hi
      by_contra hold
      exact hquiet _ (add_mem_changes hi hold) rfl
    · intro hi
      by_contra hgone
      -- its identity has vanished, or is taken by an instance that is new
      by_cases hsame : ∃ n ∈ instances, n.sameIdentity i = true
      · obtain ⟨n, hn, hsame⟩ := hsame
        have hnold : n ∉ r.instances := fun hn' => hgone (h.eq hn' hi hsame ▸ hn)
        exact hquiet _ (add_mem_changes hn hnold) (Instance.sameIdentity_iff.mp hsame).1
      · refine hquiet _ (delete_mem_changes hi fun n hn => ?_) rfl
        rw [← Bool.not_eq_true]
        exact fun hs => hsame ⟨n, hn, hs⟩

end ListedRegistry
end RemoteCall
