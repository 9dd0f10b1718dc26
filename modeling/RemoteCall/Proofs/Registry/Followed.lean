import RemoteCall.Proofs.Registry.Listed
import RemoteCall.Registry.Followed

/-! What the events of a listed registry say of its list.

A copy of what was listed for a service, kept up by the events that come after, has at any time what
the registry lists. An action announces deletions and then additions, each of them true; and what is
announced of a service is received by each of its subscribers, once and in order. -/
namespace RemoteCall
open Instance (Distinct)

namespace Event
variable {i x : Instance} {copy gone came : List Instance} {service : String}

theorem mem_replay_add : i ∈ replay copy ⟨.add, x⟩ ↔ i = x ∨ i ∈ copy ∧
    i.sameIdentity x = false := by
  rw [replay, List.mem_append, List.mem_filter, List.mem_singleton, Bool.not_eq_true', or_comm]

theorem mem_replay_delete : i ∈ replay copy ⟨.delete, x⟩ ↔ i ∈ copy ∧ i.sameIdentity x = false := by
  rw [replay, List.mem_filter, Bool.not_eq_true']

theorem mem_foldl_delete : i ∈ (gone.map (Event.mk .delete)).foldl replay copy ↔
    i ∈ copy ∧ ∀ g ∈ gone, i.sameIdentity g = false := by
  induction gone generalizing copy with
  | nil => simp
  | cons g gone ih => rw [List.map_cons, List.foldl_cons, ih, mem_replay_delete,
      and_assoc, List.forall_mem_cons]

theorem mem_foldl_add (h : Distinct came) : i ∈ (came.map (Event.mk .add)).foldl replay copy ↔
    i ∈ came ∨ i ∈ copy ∧ ∀ c ∈ came, i.sameIdentity c = false := by
  induction came generalizing copy with
  | nil => simp
  | cons c came ih =>
    obtain ⟨hc, h⟩ := List.pairwise_cons.mp h
    rw [List.map_cons, List.foldl_cons, ih h, mem_replay_add, List.forall_mem_cons, List.mem_cons]
    constructor
    · rintro (hi | ⟨rfl | ⟨hi, hne⟩, hrest⟩)
      · exact .inl (.inr hi)
      · exact .inl (.inl rfl)
      · exact .inr ⟨hi, hne, hrest⟩
    · rintro ((rfl | hi) | ⟨hi, hne, hrest⟩)
      · -- no later addition takes its place
        exact .inr ⟨.inl rfl, hc⟩
      · exact .inl hi
      · exact .inr ⟨.inr ⟨hi, hne⟩, hrest⟩

/-- What is announced of other services makes no difference to a copy of this one. -/
theorem mem_foldl_replay (h : Distinct came) (hcopy : ∀ i ∈ copy, i.name = service) :
    i ∈ ((gone.map (Event.mk .delete) ++ came.map (Event.mk .add)).filter
      fun e => e.inst.name == service).foldl replay copy ↔
    i ∈ came ∧ i.name = service ∨
      i ∈ copy ∧ (∀ g ∈ gone, i.sameIdentity g = false) ∧ ∀ c ∈ came, i.sameIdentity c = false := by
  have hsame {l : List Instance} (hi : i ∈ copy) :
      (∀ x ∈ l.filter (fun x => x.name == service), i.sameIdentity x = false) ↔
        ∀ x ∈ l, i.sameIdentity x = false := by
    constructor
    · intro hall x hx
      by_contra hid
      have hname := (Instance.sameIdentity_iff.mp (eq_true_of_ne_false hid)).1
      exact hid (hall x (List.mem_filter.mpr ⟨hx, beq_iff_eq.mpr (hname.symm.trans (hcopy i hi))⟩))
    · exact fun hall x hx => hall x (List.mem_filter.mp hx).1
  rw [List.filter_append, List.filter_map, List.filter_map, List.foldl_append,
    mem_foldl_add (h.filter _), mem_foldl_delete, List.mem_filter, and_assoc]
  change _ ∧ (i.name == service) = true ∨ _ ↔ _
  rw [beq_iff_eq]
  exact or_congr_right (and_congr_right fun hi => and_congr (hsame hi) (hsame hi))

end Event

namespace ListedRegistry
variable {r : ListedRegistry} {m n : Nat}

theorem subscription_receive_ne (h : m ≠ n) :
    (r.receive m).2.subscription n = r.subscription n := by
  simp only [subscription, receive, List.getElem?_modify, if_neg h, id_map']

theorem subscription_leave_ne (h : m ≠ n) : (r.leave m).subscription n = r.subscription n := by
  simp only [subscription, leave, List.getElem?_modify, if_neg h, id_map']

theorem subscription_subscribe_of_lt {service : String} (h : n < r.subscriptions.length) :
    (r.subscribe service).1.subscription n = r.subscription n := by
  rw [subscription, subscription, subscribe, List.getElem?_append_left h]

theorem length_foldl_announce {events : List Event} :
    (events.foldl announce r).subscriptions.length = r.subscriptions.length := by
  induction events generalizing r with
  | nil => rfl
  | cons e events ih => rw [List.foldl_cons, ih, announce, List.length_map]

theorem length_unregister {i : Instance} :
    (r.unregister i).subscriptions.length = r.subscriptions.length := by
  rw [unregister]
  split
  · exact List.length_map _
  · rfl

/-- Nobody is subscribed to under a number that was not given out. -/
theorem lt_of_open (h : (r.subscription n).isOpen = true) : n < r.subscriptions.length :=
  (List.getElem?_eq_some_iff.mp (subscription_of_open h)).1

/-- What a list becomes, told by what goes and what comes: all that is said is true, and all else
stays. -/
structure Describes (gone came old new : List Instance) : Prop where
  gone_old : ∀ g ∈ gone, ∃ o ∈ old, o.sameIdentity g = true
  gone_new : ∀ g ∈ gone, ∀ n ∈ new, n.sameIdentity g = false
  gone_distinct : Distinct gone
  came_distinct : Distinct came
  mem_new : ∀ i, i ∈ new ↔
    i ∈ came ∨ i ∈ old ∧ (∀ g ∈ gone, i.sameIdentity g = false) ∧ ∀ c ∈ came,
    i.sameIdentity c = false
  distinct : Distinct new

theorem describes_nothing {old : List Instance} (h : Distinct old) : Describes [] [] old old := by
  refine ⟨nofun, nofun, .nil, .nil, fun i => ?_, h⟩
  simp

/-- Registering is told by one addition. -/
theorem describes_register (h : Distinct r.instances) (i : Instance) :
    Describes [] [i] r.instances (r.register i).instances := by
  refine ⟨nofun, nofun, .nil, List.pairwise_singleton _ _, fun j =>
    ?_, (changes_register h i).distinct⟩
  change j ∈ r.without i ++ [i] ↔ _
  rw [List.mem_append, mem_without, List.forall_mem_singleton, or_comm]
  simp

theorem describes_unregister (h : Distinct r.instances) {i : Instance}
    (hi : (r.instances.any fun old => old.sameIdentity i) = true) :
    Describes [i] [] r.instances (r.unregister i).instances := by
  obtain ⟨o, ho, hsame⟩ := List.any_eq_true.mp hi
  obtain ⟨events, hchanges⟩ := changes_unregister h i
  refine ⟨List.forall_mem_singleton.mpr ⟨o, ho, hsame⟩, List.forall_mem_singleton.mpr
    fun n hn => ?_, List.pairwise_singleton _ _, .nil, fun j => ?_, hchanges.distinct⟩
  · exact (mem_unregister.mp hn).2
  · rw [mem_unregister, List.forall_mem_singleton]
    simp

/-- The instances of a list that have no namesake in a newer one. -/
theorem mem_vanished {old new : List Instance} {o : Instance} :
    o ∈ old.filter (fun o => !new.any fun n => n.sameIdentity o) ↔
      o ∈ old ∧ ∀ n ∈ new, n.sameIdentity o = false := by
  rw [List.mem_filter, Bool.not_eq_true', List.any_eq_false]
  simp only [Bool.not_eq_true]

theorem mem_fresh {old new : List Instance} {n : Instance} :
    n ∈ new.filter (fun n => !old.contains n) ↔ n ∈ new ∧ n ∉ old := by
  rw [List.mem_filter, Bool.not_eq_true', ← Bool.not_eq_true, List.contains_iff_mem]

/-- An instance whose identity none of the vanished ones has is still there in some form. -/
theorem exists_namesake {old new : List Instance} {i : Instance} (hi : i ∈ old)
    (h : ∀ g ∈ old.filter (fun o => !new.any fun n => n.sameIdentity o), i.sameIdentity g = false) :
    ∃ n ∈ new, n.sameIdentity i = true := by
  by_contra hnone
  have hv : i ∈ old.filter fun o => !new.any fun n => n.sameIdentity o :=
    mem_vanished.mpr ⟨hi, fun n hn => Bool.eq_false_iff.mpr fun hs => hnone ⟨n, hn, hs⟩⟩
  exact Bool.false_ne_true ((h i hv).symm.trans Instance.sameIdentity_self)

/-- Going by identity for what goes, and by all of an instance for what comes, tells all of an
update. -/
theorem describes_update {old new : List Instance} (h : Distinct old) (hnew : Distinct new) :
    Describes (old.filter fun o => !new.any fun n => n.sameIdentity o)
      (new.filter fun n => !old.contains n) old new := by
  refine ⟨fun g hg => ?_, fun g hg => (mem_vanished.mp hg).2, h.filter _, hnew.filter _,
    fun i => ?_, hnew⟩
  · exact ⟨g, (mem_vanished.mp hg).1, Instance.sameIdentity_self⟩
  rw [mem_fresh]
  constructor
  · intro hi
    by_cases hold : i ∈ old
    · refine .inr ⟨hold, fun g hg => ?_, fun c hc => ?_⟩
      · exact (mem_vanished.mp hg).2 i hi
      · obtain ⟨hc, hfresh⟩ := mem_fresh.mp hc
        rw [Bool.eq_false_iff]
        intro hs
        exact hfresh (hnew.eq hi hc hs ▸ hold)
    · exact .inl ⟨hi, hold⟩
  · rintro (⟨hi, -⟩ | ⟨hi, hgone, hcame⟩)
    · exact hi
    · -- its identity is still there, with the same data as nothing new came for it
      by_contra hni
      obtain ⟨n, hn, hs⟩ := exists_namesake hi hgone
      have hfresh : n ∉ old := fun hold => hni (h.eq hold hi hs ▸ hn)
      have hne := hcame n (mem_fresh.mpr ⟨hn, hfresh⟩)
      rw [Instance.sameIdentity_comm, hs] at hne
      cases hne

end ListedRegistry

namespace FollowedList
open ListedRegistry (Describes)
variable {s t : FollowedList} {a : Action} {actions : List Action} {events : List Event}
  {service : String} {k : Nat}

/-! What is announced -/

/-- An action announces what goes and then what comes, and this describes what it does to the list.
-/
theorem announced_describes (h : Distinct s.registry.instances)
    (hupdate : ∀ l, a = .update l → Distinct l) :
    ∃ gone came, s.announced a = gone.map (Event.mk .delete) ++ came.map (Event.mk .add) ∧
      Describes gone came s.registry.instances (s.step a).registry.instances := by
  cases a with
  | register i => exact ⟨[], [i], rfl, ListedRegistry.describes_register h i⟩
  | unregister i =>
    rw [announced]
    split
    · exact ⟨[i], [], rfl, ListedRegistry.describes_unregister h ‹_›⟩
    · refine ⟨[], [], rfl, ?_⟩
      change Describes [] [] _ (s.registry.unregister i).instances
      rw [ListedRegistry.unregister, if_neg ‹_›]
      exact ListedRegistry.describes_nothing h
  | update l =>
    refine ⟨_, _, rfl, ?_⟩
    change Describes _ _ _ (s.registry.update l).instances
    rw [ListedRegistry.update, ListedRegistry.instances_foldl_announce]
    exact ListedRegistry.describes_update h (hupdate l rfl)
  | take k =>
    refine ⟨[], [], rfl, ?_⟩
    simp only [step, take]
    split
    · rename_i hreceive
      have hsame := congrArg (·.2.instances) hreceive
      exact hsame ▸ ListedRegistry.describes_nothing h
    · exact ListedRegistry.describes_nothing h
  | pass k =>
    refine ⟨[], [], rfl, ?_⟩
    simp only [step, pass]
    split
    · split
      · exact ListedRegistry.describes_nothing h
      split
      · exact ListedRegistry.describes_nothing h
      · exact ListedRegistry.describes_nothing h
    · exact ListedRegistry.describes_nothing h
  | _ => exact ⟨[], [], rfl, ListedRegistry.describes_nothing h⟩

theorem distinct_run (h : Distinct s.registry.instances)
    (hupdates : ∀ l, .update l ∈ actions → Distinct l) :
    Distinct (s.run actions).registry.instances := by
  induction actions generalizing s with
  | nil => exact h
  | cons a rest ih =>
    obtain ⟨_, _, -, hd⟩ := announced_describes h fun l hl => hupdates l (hl ▸ List.mem_cons_self)
    exact ih hd.distinct fun l hl => hupdates l (List.mem_cons_of_mem _ hl)

/-- A copy of the list of a service is kept up by what an action announces of it. -/
theorem mem_replay_announced (h : Distinct s.registry.instances)
    (hupdate : ∀ l, a = .update l → Distinct l) {copy : List Instance}
    (hcopy : ∀ i, i ∈ copy ↔ i ∈ s.registry.list service) (i : Instance) :
    i ∈ ((s.announced a).filter fun e => e.inst.name == service).foldl Event.replay copy ↔
      i ∈ (s.step a).registry.list service := by
  obtain ⟨gone, came, hannounced, hd⟩ := announced_describes h hupdate
  have hname : ∀ i ∈ copy, i.name = service :=
    fun i hi => (ListedRegistry.mem_list.mp ((hcopy i).mp hi)).2
  rw [hannounced, Event.mem_foldl_replay hd.came_distinct hname, hcopy, ListedRegistry.mem_list,
    ListedRegistry.mem_list, hd.mem_new, or_and_right]
  exact or_congr_right and_right_comm

/-- Whoever begins with the list and replays the announcements has the list that has come of them.
-/
theorem mem_replay_announcements (h : Distinct s.registry.instances)
    (hupdates : ∀ l, .update l ∈ actions → Distinct l) {copy : List Instance}
    (hcopy : ∀ i, i ∈ copy ↔ i ∈ s.registry.list service) (i : Instance) :
    i ∈ ((s.announcements actions).filter fun e => e.inst.name == service).foldl Event.replay copy ↔
      i ∈ (s.run actions).registry.list service := by
  induction actions generalizing s copy with
  | nil => exact hcopy i
  | cons a rest ih =>
    have hupdate : ∀ l, a = .update l → Distinct l :=
      fun l hl => hupdates l (hl ▸ List.mem_cons_self)
    obtain ⟨_, _, -, hd⟩ := announced_describes h hupdate
    rw [announcements, List.filter_append, List.foldl_append]
    exact ih hd.distinct (fun l hl => hupdates l (List.mem_cons_of_mem _ hl))
      (mem_replay_announced h hupdate hcopy)

/-! What a subscriber gets -/

/-- The subscriber of a number is there, and these events about the service were sent to it so far.
-/
structure Hears (s : FollowedList) (k : Nat) (service : String) (events : List Event) : Prop where
  there : ∃ f, s.followers[k]? = some f ∧ f.left = false
  isOpen : (s.registry.subscription k).isOpen = true
  service_eq : (s.registry.subscription k).service = service
  told : s.received k ++ s.onTheWay k = events

theorem getElem?_onFollower {f : Follower} (hf : s.followers[k]? = some f)
    {g : Follower → Follower} : (s.onFollower k g).followers[k]? = some (g f) := by
  simp only [onFollower, List.getElem?_modify, hf, ↓reduceIte, Option.map_eq_map, Option.map_some]

theorem getElem?_onFollower_ne {j : Nat} (hj : j ≠ k) {g : Follower → Follower} :
    (s.onFollower j g).followers[k]? = s.followers[k]? := by
  simp only [onFollower, List.getElem?_modify, if_neg hj, id_map']

/-- Events go from one place to the next, on the way of the subscriber. -/
theorem Hears.goOn (h : s.Hears k service events) {f f' : Follower} (hf : s.followers[k]? = some f)
    (hf' : t.followers[k]? = some f') (hleft : f'.left = f.left) {waiting : List Event}
    (hsub : t.registry.subscription k = { s.registry.subscription k with waiting })
    (htold : f'.received ++ (f'.queue ++ f'.inHand.toList ++ waiting) =
      f.received ++ (f.queue ++ f.inHand.toList ++ (s.registry.subscription k).waiting)) :
    t.Hears k service events where
  there := by
    obtain ⟨g, hg, hg'⟩ := h.there
    obtain rfl : f = g := Option.some.inj (hf.symm.trans hg)
    exact ⟨f', hf', hleft.trans hg'⟩
  isOpen := hsub ▸ h.isOpen
  service_eq := hsub ▸ h.service_eq
  told := by
    have hbefore := h.told
    rw [received, onTheWay, hf] at hbefore
    rw [received, onTheWay, hf', hsub, ← hbefore]
    exact htold

/-- What does not touch a subscriber or its subscription makes no difference to it. -/
theorem Hears.congr (h : s.Hears k service events) (hf : t.followers[k]? = s.followers[k]?)
    (hr : t.registry.subscription k = s.registry.subscription k) : t.Hears k service events := by
  obtain ⟨f, hf₀, -⟩ := h.there
  exact h.goOn hf₀ (hf.trans hf₀) rfl hr rfl

/-- The registry announces events to everyone. -/
theorem Hears.announce (h : s.Hears k service events) {registry : ListedRegistry} {new : List Event}
    (hr : registry.subscription k = new.foldl Subscription.send (s.registry.subscription k)) :
    Hears { s with registry } k service (events ++ new.filter fun e => e.inst.name == service) := by
  have hwants : (s.registry.subscription k).wants = fun e => e.inst.name == service := by
    funext e
    rw [Subscription.wants, h.service_eq, Bool.beq_comm]
  rw [Subscription.foldl_send h.isOpen, hwants] at hr
  refine ⟨h.there, hr ▸ h.isOpen, hr ▸ h.service_eq, ?_⟩
  rw [← h.told]
  simp only [received, onTheWay, hr, List.append_assoc]

/-- A forwarder takes the oldest event that waits for it, if it has nothing in hand. -/
theorem take_cases (s : FollowedList) (k : Nat) : s.take k = s ∨ ∃ queue received left e rest,
    s.followers[k]? = some ⟨none, queue, received, left⟩ ∧
    (s.registry.subscription k).waiting = e :: rest ∧
    s.take k =
      { s with registry := (s.registry.receive k).2 }.onFollower k fun f =>
      { f with inHand := some e } := by
  rw [take]
  split
  · rename_i hf hreceive
    obtain ⟨rest, hw⟩ := List.head?_eq_some_iff.mp (congrArg Prod.fst hreceive)
    exact .inr ⟨_, _, _, _, rest, hf, hw, by rw [hreceive]⟩
  · exact .inl rfl

/-- A forwarder passes on what it has in hand as soon as there is room, or gives up if nobody is
there. -/
theorem pass_cases (s : FollowedList) (k : Nat) : s.pass k = s ∨ ∃ e queue received left,
    s.followers[k]? = some ⟨some e, queue, received, left⟩ ∧
    (left = true ∧
        s.pass k = { s with registry := s.registry.leave k }.onFollower k
          (fun f => { f with inHand := none }) ∨
      left = false ∧
        s.pass k = s.onFollower k fun f => { f with inHand := none, queue := f.queue ++ [e] }) := by
  rw [pass]
  split
  · rename_i e queue received left hf
    cases left with
    | true => exact .inr ⟨e, queue, received, true, hf, .inl ⟨rfl, rfl⟩⟩
    | false =>
      simp only [Bool.false_eq_true, ↓reduceIte]
      split
      · exact .inr ⟨e, queue, received, false, hf, .inr ⟨rfl, rfl⟩⟩
      · exact .inl rfl
  · exact .inl rfl

theorem Hears.take (h : s.Hears k service events) (j : Nat) :
    (s.take j).Hears k service events := by
  obtain heq | ⟨queue, received, left, e, rest, hf, hw, heq⟩ := s.take_cases j
  · exact heq.symm ▸ h
  rw [heq]
  by_cases hj : j = k
  · subst hj
    refine h.goOn hf (getElem?_onFollower hf) rfl (ListedRegistry.subscription_receive h.isOpen) ?_
    rw [hw]
    simp only [Option.toList_some, Option.toList_none, List.append_nil,
      List.append_assoc, List.drop_succ_cons, List.drop_zero, List.cons_append, List.nil_append]
  · exact h.congr (getElem?_onFollower_ne hj) (ListedRegistry.subscription_receive_ne hj)

theorem Hears.pass (h : s.Hears k service events) (j : Nat) :
    (s.pass j).Hears k service events := by
  obtain heq | ⟨e, queue, received, left, hf, hcases⟩ := s.pass_cases j
  · exact heq.symm ▸ h
  by_cases hj : j = k
  · -- the subscriber is there, so the event goes to it
    subst hj
    obtain ⟨f, hthere, hleft⟩ := h.there
    obtain rfl : _ = f := Option.some.inj (hf.symm.trans hthere)
    obtain ⟨hgone, -⟩ | ⟨-, heq⟩ := hcases
    · cases hgone.symm.trans hleft
    rw [heq]
    have hsub : (s.onFollower j fun f =>
        { f with inHand := none, queue := f.queue ++ [e] }).registry.subscription j =
        { s.registry.subscription j with waiting := (s.registry.subscription j).waiting } := rfl
    refine h.goOn hf (getElem?_onFollower hf) rfl hsub ?_
    simp only [Option.toList_some, Option.toList_none, List.append_nil]
  · obtain ⟨-, heq⟩ | ⟨-, heq⟩ := hcases
    · exact heq ▸ h.congr (getElem?_onFollower_ne hj) (ListedRegistry.subscription_leave_ne hj)
    · exact heq ▸ h.congr (getElem?_onFollower_ne hj) rfl

theorem Hears.receive (h : s.Hears k service events) (j : Nat) :
    (s.step (.receive j)).Hears k service events := by
  by_cases hj : j = k
  · subst hj
    obtain ⟨⟨inHand, queue, received, left⟩, hf, -⟩ := h.there
    have hf' : (s.step (.receive j)).followers[j]? = _ := getElem?_onFollower hf
    cases queue with
    | nil => exact h.goOn hf hf' rfl rfl rfl
    | cons e rest =>
      have hsub : (s.step (.receive j)).registry.subscription j =
        { s.registry.subscription j with waiting := (s.registry.subscription j).waiting } := rfl
      refine h.goOn hf hf' rfl hsub ?_
      simp only [Follower.receive, List.append_assoc, List.cons_append, List.nil_append]
  · exact h.congr (getElem?_onFollower_ne hj) rfl

theorem Hears.leave (h : s.Hears k service events) {j : Nat} (hj : j ≠ k) :
    (s.step (.leave j)).Hears k service events :=
  h.congr (getElem?_onFollower_ne hj) rfl

/-- Whatever happens, a subscriber that stays is sent what is announced of its service, unless the
registry closes. -/
theorem Hears.step (h : s.Hears k service events) (hclose : a ≠ .close) (hleave : a ≠ .leave k) :
    (s.step a).Hears k service
      (events ++ (s.announced a).filter fun e => e.inst.name == service) := by
  cases a with
  | register i => exact h.announce ListedRegistry.subscription_announce
  | unregister i =>
    rw [announced]
    change Hears { s with registry := s.registry.unregister i } k service _
    rw [ListedRegistry.unregister]
    split
    · exact h.announce ListedRegistry.subscription_announce
    · exact h.announce rfl
  | update l => exact h.announce ListedRegistry.subscription_foldl_announce
  | close => exact absurd rfl hclose
  | subscribe other =>
    obtain ⟨f, hf, -⟩ := h.there
    refine (List.append_nil events).symm ▸ h.congr ?_ ?_
    · exact List.getElem?_append_left (List.getElem?_eq_some_iff.mp hf).1
    · exact ListedRegistry.subscription_subscribe_of_lt (ListedRegistry.lt_of_open h.isOpen)
  | take j => exact (List.append_nil events).symm ▸ h.take j
  | pass j => exact (List.append_nil events).symm ▸ h.pass j
  | receive j => exact (List.append_nil events).symm ▸ h.receive j
  | leave j => exact (List.append_nil events).symm ▸ h.leave fun hj => hleave (hj ▸ rfl)

/-- As long as nobody closes or leaves, a subscriber hears of every announcement about its service,
in order. -/
theorem Hears.run (h : s.Hears k service events) (hclose : .close ∉ actions)
    (hleave : .leave k ∉ actions) :
    (s.run actions).Hears k service
      (events ++ (s.announcements actions).filter fun e => e.inst.name == service) := by
  induction actions generalizing s events with
  | nil =>
    rw [announcements, List.filter_nil, List.append_nil]
    exact h
  | cons a rest ih =>
    rw [announcements, List.filter_append, ← List.append_assoc]
    refine ih (h.step (fun ha => ?_) fun ha => ?_) (fun hc => ?_) fun hl => ?_
    · exact hclose (ha ▸ List.mem_cons_self)
    · exact hleave (ha ▸ List.mem_cons_self)
    · exact hclose (List.mem_cons_of_mem _ hc)
    · exact hleave (List.mem_cons_of_mem _ hl)

/-! How it begins -/

theorem length_onFollower {f : Follower → Follower} :
    (s.onFollower k f).followers.length = s.followers.length :=
  List.length_modify _ _ _

/-- Each subscription has its follower. -/
theorem length_step (h : s.followers.length = s.registry.subscriptions.length) :
    (s.step a).followers.length = (s.step a).registry.subscriptions.length := by
  cases a with
  | register i => exact h.trans (List.length_map _).symm
  | unregister i => exact h.trans ListedRegistry.length_unregister.symm
  | update l =>
    change s.followers.length = (s.registry.update l).subscriptions.length
    rw [ListedRegistry.update, ListedRegistry.length_foldl_announce, h]
  | close => exact h.trans (List.length_map _).symm
  | subscribe service =>
    change (s.followers ++ [_]).length = (s.registry.subscriptions ++ [_]).length
    rw [List.length_append, List.length_append, h]
    rfl
  | take k =>
    change (s.take k).followers.length = (s.take k).registry.subscriptions.length
    obtain heq | ⟨_, _, _, _, _, -, -, heq⟩ := s.take_cases k
    · rw [heq, h]
    · rw [heq, length_onFollower, h]
      exact (List.length_modify _ _ _).symm
  | pass k =>
    change (s.pass k).followers.length = (s.pass k).registry.subscriptions.length
    obtain heq | ⟨_, _, _, _, -, ⟨-, heq⟩ | ⟨-, heq⟩⟩ := s.pass_cases k
    · rw [heq, h]
    · rw [heq, length_onFollower, h]
      exact (List.length_modify _ _ _).symm
    · rw [heq, length_onFollower, h]
      rfl
  | receive k => exact length_onFollower.trans h
  | leave k => exact length_onFollower.trans h

theorem length_run (h : s.followers.length = s.registry.subscriptions.length) :
    (s.run actions).followers.length = (s.run actions).registry.subscriptions.length := by
  induction actions generalizing s with
  | nil => exact h
  | cons a rest ih => exact ih (length_step h)

/-- A new subscriber has heard of nothing. -/
theorem hears_subscribe (service : String)
    (h : s.followers.length = s.registry.subscriptions.length) :
    (s.step (.subscribe service)).Hears s.registry.subscriptions.length service [] := by
  have hf : (s.step (.subscribe service)).followers[s.registry.subscriptions.length]? =
      some {} := by
    rw [← h]
    exact List.getElem?_concat_length
  have hsub : (s.step (.subscribe service)).registry.subscription s.registry.subscriptions.length =
      { service } :=
    ListedRegistry.subscription_subscribe
  refine ⟨⟨_, hf, rfl⟩, hsub ▸ rfl, hsub ▸ rfl, ?_⟩
  rw [received, onTheWay, hf, hsub]
  rfl

/-! How it ends -/

def Action.IsOf (k : Nat) (a : Action) : Prop := a = .take k ∨ a = .pass k ∨ a = .receive k

def ahead (s : FollowedList) (k : Nat) : Nat :=
  (s.followers[k]?.map fun f => f.queue.length + 2 * f.inHand.toList.length).getD 0 +
    3 * (s.registry.subscription k).waiting.length

theorem ahead_eq {f : Follower} (hf : s.followers[k]? = some f) : s.ahead k =
    f.queue.length + 2 * f.inHand.toList.length + 3 *
      (s.registry.subscription k).waiting.length := by
  rw [ahead, hf]
  rfl

theorem instances_take : (s.take k).registry.instances = s.registry.instances := by
  obtain heq | ⟨_, _, _, _, _, -, -, heq⟩ := s.take_cases k
  · rw [heq]
  · rw [heq]
    rfl

theorem instances_pass : (s.pass k).registry.instances = s.registry.instances := by
  obtain heq | ⟨_, _, _, _, -, ⟨-, heq⟩ | ⟨-, heq⟩⟩ := s.pass_cases k
  · rw [heq]
  · rw [heq]
    rfl
  · rw [heq]
    rfl

theorem take_eq {queue received : List Event} {left : Bool} {e : Event} {rest : List Event}
    (hf : s.followers[k]? = some ⟨none, queue, received, left⟩)
    (hw : (s.registry.subscription k).waiting = e :: rest) :
    s.take k =
      { s with registry := (s.registry.receive k).2 }.onFollower k fun f =>
      { f with inHand := some e } := by
  have hreceive : s.registry.receive k = (some e, (s.registry.receive k).2) := by
    rw [ListedRegistry.receive, hw]
    rfl
  rw [take, hf, hreceive]

theorem pass_eq {queue received : List Event} {e : Event}
    (hf : s.followers[k]? = some ⟨some e, queue, received, false⟩)
    (hroom : queue.length < Follower.queueCapacity) :
    s.pass k = s.onFollower k fun f => { f with inHand := none, queue := f.queue ++ [e] } := by
  rw [pass, hf]
  exact if_pos hroom

/-- Nothing is stuck on its way: one of the two can always go on. -/
theorem Hears.exists_action (h : s.Hears k service events) (hway : s.onTheWay k ≠ []) :
    ∃ a : Action, a.IsOf k ∧ (s.step a).ahead k < s.ahead k := by
  obtain ⟨⟨inHand, queue, received, left⟩, hf, hleft⟩ := h.there
  obtain rfl : left = false := hleft
  cases queue with
  | cons e rest =>
    have hf' : (s.step (.receive k)).followers[k]? = _ := getElem?_onFollower hf
    refine ⟨.receive k, .inr (.inr rfl), ?_⟩
    rw [ahead_eq hf', ahead_eq hf, List.length_cons]
    change rest.length + 2 * inHand.toList.length + 3 * (s.registry.subscription k).waiting.length <
      rest.length + 1 + 2 * inHand.toList.length + _
    omega
  | nil =>
    cases inHand with
    | some e =>
      have hpass : s.step (.pass k) = _ := pass_eq hf (by decide)
      refine ⟨.pass k, .inr (.inl rfl), ?_⟩
      rw [hpass, ahead_eq (getElem?_onFollower hf), ahead_eq hf]
      change _ + 3 * (s.registry.subscription k).waiting.length < _
      simp only [Option.toList_none, Option.toList_some, List.length_nil,
        List.nil_append, List.length_cons]
      omega
    | none =>
      cases hw : (s.registry.subscription k).waiting with
      | nil =>
        rw [onTheWay, hf, hw] at hway
        exact absurd rfl hway
      | cons e rest =>
        have htake : s.step (.take k) = _ := take_eq hf hw
        have hf' := getElem?_onFollower (s := { s with registry := (s.registry.receive k).2 }) hf
          (g := fun f => { f with inHand := some e })
        refine ⟨.take k, .inl rfl, ?_⟩
        rw [htake, ahead_eq hf', ahead_eq hf, hw]
        change _ + 3 * ((s.registry.receive k).2.subscription k).waiting.length < _
        rw [ListedRegistry.subscription_receive h.isOpen, hw]
        simp only [Option.toList_none, Option.toList_some, List.length_nil,
          List.length_cons, List.drop_succ_cons, List.drop_zero]
        omega

theorem Action.IsOf.hears (h : s.Hears k service events) (ha : a.IsOf k) :
    (s.step a).Hears k service events := by
  obtain rfl | rfl | rfl := ha
  · exact h.take k
  · exact h.pass k
  · exact h.receive k

theorem Action.IsOf.instances (ha : a.IsOf k) :
    (s.step a).registry.instances = s.registry.instances := by
  obtain rfl | rfl | rfl := ha
  · exact instances_take
  · exact instances_pass
  · rfl

/-- If nothing else happens, all that is on its way to a subscriber arrives. -/
theorem Hears.arrives (h : s.Hears k service events) : ∃ own : List Action, (∀ a ∈ own, a.IsOf k) ∧
    (s.run own).registry.instances = s.registry.instances ∧ (s.run own).received k = events := by
  induction hn : s.ahead k using Nat.strongRecOn generalizing s with
  | ind n ih =>
    by_cases hway : s.onTheWay k = []
    · have htold := h.told
      rw [hway, List.append_nil] at htold
      exact ⟨[], nofun, rfl, htold⟩
    obtain ⟨a, ha, hless⟩ := h.exists_action hway
    obtain ⟨own, hown, hinstances, hreceived⟩ := ih _ (hn ▸ hless) (ha.hears h) rfl
    exact ⟨a :: own, List.forall_mem_cons.mpr ⟨ha, hown⟩, hinstances.trans ha.instances, hreceived⟩

/-! The whole -/

/-- What the events that a subscriber gets in a run from its subscription on are, and say. -/
structure Tells (s t : FollowedList) (k : Nat) (service : String) (later : List Action) : Prop where
  /-- It has received, or will, what the registry announces of the service, once and in order. -/
  told : t.received k ++ t.onTheWay k =
    (s.announcements later).filter fun e => e.inst.name == service
  /-- Of each action, what goes is announced before what comes, and all that is announced is true.
  -/
  announced : ∀ first a rest, later = first ++ a :: rest → ∃ gone came,
    (s.run first).announced a = gone.map (Event.mk .delete) ++ came.map (Event.mk .add) ∧
      Describes gone came (s.run first).registry.instances (s.run (first ++ [a])).registry.instances
  /-- A copy of what was listed, kept up by the events, has what is listed. -/
  copied : ∀ i, i ∈ (t.received k ++ t.onTheWay k).foldl Event.replay (s.registry.list service) ↔
    i ∈ t.registry.list service
  /-- All of it arrives if nothing else happens. -/
  arrives : ∃ own : List Action, (∀ a ∈ own, a.IsOf k) ∧
    (t.run own).registry.instances = t.registry.instances ∧
    (t.run own).received k = t.received k ++ t.onTheWay k
  distinct : Distinct t.registry.instances

/-- Whatever is registered, unregistered and updated after a subscription, by whomever, and however
slowly the events get through: what the subscriber is told is just what happens to the list of its
service. -/
theorem tells_subscriber {instances : List Instance} {earlier later : List Action}
    (hinstances : Distinct instances) (hupdates : ∀ l, .update l ∈ earlier ++ later → Distinct l)
    (hs : s = (new instances).run earlier) (hclose : .close ∉ later)
    (hleave : .leave s.registry.subscriptions.length ∉ later) :
    (s.step (.subscribe service)).Tells ((s.step (.subscribe service)).run later)
      s.registry.subscriptions.length service later := by
  have hearlier : ∀ l, .update l ∈ earlier → Distinct l :=
    fun l hl => hupdates l (List.mem_append_left _ hl)
  have hlater : ∀ l, .update l ∈ later → Distinct l :=
    fun l hl => hupdates l (List.mem_append_right _ hl)
  have hdistinct : Distinct (s.step (.subscribe service)).registry.instances :=
    hs ▸ distinct_run hinstances hearlier
  have hhears := (hears_subscribe service (hs ▸ length_run rfl)).run hclose hleave
  rw [List.nil_append] at hhears
  refine ⟨hhears.told, fun first a rest hsplit => ?_, fun i => ?_, hhears.told ▸ hhears.arrives,
    distinct_run hdistinct hlater⟩
  · have hfirst : ∀ l, .update l ∈ first → Distinct l := fun l hl =>
      hlater l (hsplit ▸ List.mem_append_left _ hl)
    have ha : ∀ l, a = .update l → Distinct l := fun l hl =>
      hlater l (hsplit ▸ hl ▸ List.mem_append_right _ List.mem_cons_self)
    obtain ⟨gone, came, hannounced, hd⟩ := announced_describes (distinct_run hdistinct hfirst) ha
    refine ⟨gone, came, hannounced, ?_⟩
    rw [run, run, List.foldl_append]
    exact hd
  · rw [hhears.told]
    exact mem_replay_announcements hdistinct hlater (fun _ => Iff.rfl) i

/-- One of two instances vanishes, the other gets a weight and is then taken out: the first event
has arrived. -/
theorem tells_subscriber_update :
    let a : Instance := { name := "svc", address := "h:1" }
    let b : Instance := { name := "svc", address := "h:2" }
    let other : Instance := { name := "mail", address := "h:1" }
    let s := (new [a, other]).run [.register b]
    let later : List Action :=
      [.update [{ a with weight := some 5 }, { other with weight := some 5 }], .take 0,
        .pass 0, .receive 0, .unregister a]
    let t := (s.step (.subscribe "svc")).run later
    s.registry.subscriptions.length = 0 ∧ t.received 0 = [⟨.delete, b⟩] ∧
      t.onTheWay 0 = [⟨.add, { a with weight := some 5 }⟩, ⟨.delete, a⟩] ∧
      (s.step (.subscribe "svc")).Tells t 0 "svc" later := by
  intro a b other s later t
  have hinstances : Distinct [a, other] := by
    unfold Distinct
    decide
  have hupdates : ∀ l, .update l ∈ [Action.register b] ++ later → Distinct l := by
    intro l hl
    obtain rfl : l = [{ a with weight := some 5 }, { other with weight := some 5 }] := by
      simpa [later] using hl
    unfold Distinct
    decide
  exact ⟨rfl, by decide +kernel, by decide +kernel,
    tells_subscriber hinstances hupdates rfl (by decide +kernel) (by decide +kernel)⟩

end FollowedList
end RemoteCall
