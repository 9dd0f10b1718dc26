import RemoteCall.Registry.Shared
import RemoteCall.Proofs.Registry.Drain
import RemoteCall.Proofs.Store.Log

/-! Which changes of a service reach a subscription to it.

All that happens to a subscription happens by the actions of its own parties, except that its
registry may close. So along any run it follows the log of the store, and loses a change only where
its watch looks so late that the change is no longer kept. -/
namespace RemoteCall.SharedStore
open Store (Change Notice Watch)
variable {s : SharedStore} {a : Action} {actions before after : List Action} {k r start j : Nat}
  {registry : LeasedRegistry} {f g : Feed} {scope service : String} {lost : Nat → Prop}

theorem run_cons : s.run (a :: actions) = (s.step a).run actions := rfl

theorem run_append : s.run (before ++ after) = (s.run before).run after := List.foldl_append

/-! The log -/

theorem log_establish {span : Duration} : (s.establish span).store.log = s.store.log := by
  have hgrant : (s.store.grant span).1.log = s.store.log := Store.log_grant
  have hlog : (LeasedRegistry.establish s.store span).1.log = s.store.log := by
    unfold LeasedRegistry.establish
    split
    · rfl
    · split
      · rename_i hg
        rw [hg] at hgrant
        exact hgrant
      · rename_i hg
        rw [hg] at hgrant
        exact hgrant
      · rename_i hg
        rw [hg] at hgrant
        exact hgrant
  unfold establish
  split
  · rename_i he
    rw [he] at hlog
    exact hlog
  · rename_i he
    rw [he] at hlog
    exact hlog

/-- Every action only adds to the log. -/
theorem log_step : s.store.log <+: (s.step a).store.log := by
  cases a with
  | sweep => exact Store.log_sweep
  | grant span => exact Store.log_grant ▸ List.prefix_refl _
  | keepAlive lease => exact Store.log_keepAlive ▸ List.prefix_refl _
  | revoke lease => exact Store.log_revoke
  | put key value lease => exact Store.log_put
  | delete key => exact Store.log_delete
  | unregister i => exact Store.log_delete
  | establish span => exact log_establish ▸ List.prefix_refl _
  | register r i =>
    simp only [step, register]
    split
    · unfold LeasedRegistry.register
      split
      · exact Store.log_put
      · exact List.prefix_refl _
    · exact List.prefix_refl _
  | subscribe r service =>
    simp only [step, subscribe]
    split
    · exact List.prefix_refl _
    · exact List.prefix_refl _
  | close r =>
    simp only [step, close]
    split
    · exact Store.log_revoke
    · exact List.prefix_refl _
  | pass span => exact List.prefix_refl _
  | look k => exact List.prefix_refl _
  | heedWatch k => exact List.prefix_refl _
  | forward k => exact List.prefix_refl _
  | heed k => exact List.prefix_refl _
  | receive k => exact List.prefix_refl _
  | leave k => exact List.prefix_refl _

theorem log_run : s.store.log <+: (s.run actions).store.log := by
  induction actions generalizing s with
  | nil => exact List.prefix_refl _
  | cons a rest ih => exact log_step.trans ih

/-! The subscriptions -/

inductive Happens (s : SharedStore) (k : Nat) (f : Feed) : Action → Feed → Prop
  | look : Happens s k f (.look k) (f.look s.store.log)
  | heedWatch : Happens s k f (.heedWatch k) f.heedWatch
  | forward : Happens s k f (.forward k) f.forward
  | heed : Happens s k f (.heed k) f.heed
  | receive : Happens s k f (.receive k) f.receive
  | leave : Happens s k f (.leave k) f.leave
  | cancel (r : Nat) : Happens s k f (.close r) f.cancel
  | nothing (a : Action) (h : a ≠ .look k) : Happens s k f a f

theorem getElem?_onFeed {act : Feed → Feed} {m : Nat} (hf : s.feeds[k]? = some f) :
    (s.onFeed m act).feeds[k]? = some (if m = k then act f else f) := by
  rw [onFeed, List.getElem?_modify, hf]
  rfl

theorem happens_onFeed {act : Feed → Feed} {m : Nat} (hf : s.feeds[k]? = some f)
    (hact : m = k → Happens s k f a (act f)) (hne : m ≠ k → a ≠ .look k) :
    ∃ g, (s.onFeed m act).feeds[k]? = some g ∧ Happens s k f a g := by
  refine ⟨_, getElem?_onFeed hf, ?_⟩
  split
  · rename_i heq
    exact hact heq
  · rename_i heq
    exact .nothing a (hne heq)

theorem happens_subscribe (hf : s.feeds[k]? = some f) (r : Nat) (service : String) :
    ∃ g, (s.step (.subscribe r service)).feeds[k]? = some g ∧
      Happens s k f (.subscribe r service) g := by
  refine ⟨f, ?_, .nothing _ nofun⟩
  simp only [step, subscribe]
  split
  · exact List.getElem?_append_left (List.getElem?_eq_some_iff.mp hf).1 ▸ hf
  · exact hf

/-- The subscriptions of a registry end with it, the others go on. -/
theorem happens_close (hf : s.feeds[k]? = some f) (r : Nat) :
    ∃ g, (s.step (.close r)).feeds[k]? = some g ∧ Happens s k f (.close r) g := by
  simp only [step, close]
  split
  · rename_i registry hr
    dsimp only
    rw [List.getElem?_map, hf]
    refine ⟨_, rfl, ?_⟩
    dsimp only
    split
    · exact .cancel r
    · exact .nothing _ nofun
  · exact ⟨f, hf, .nothing _ nofun⟩

/-- These are all cases of what can happen to a subscription. -/
theorem happens_step (hf : s.feeds[k]? = some f) :
    ∃ g, (s.step a).feeds[k]? = some g ∧ Happens s k f a g := by
  cases a with
  | look m =>
    apply happens_onFeed hf
    · rintro rfl
      exact .look
    · intro hne he
      exact hne (Action.look.inj he)
  | heedWatch m =>
    apply happens_onFeed hf
    · rintro rfl
      exact .heedWatch
    · exact fun _ => nofun
  | forward m =>
    apply happens_onFeed hf
    · rintro rfl
      exact .forward
    · exact fun _ => nofun
  | heed m =>
    apply happens_onFeed hf
    · rintro rfl
      exact .heed
    · exact fun _ => nofun
  | receive m =>
    apply happens_onFeed hf
    · rintro rfl
      exact .receive
    · exact fun _ => nofun
  | leave m =>
    apply happens_onFeed hf
    · rintro rfl
      exact .leave
    · exact fun _ => nofun
  | establish span =>
    refine ⟨f, ?_, .nothing _ nofun⟩
    simp only [step, establish]
    split
    · exact hf
    · exact hf
  | register r i =>
    refine ⟨f, ?_, .nothing _ nofun⟩
    simp only [step, register]
    split
    · exact hf
    · exact hf
  | subscribe r service => exact happens_subscribe hf r service
  | close r => exact happens_close hf r
  | _ => exact ⟨f, hf, .nothing _ nofun⟩

/-- No subscription is ever forgotten. -/
theorem length_feeds_run : s.feeds.length ≤ (s.run actions).feeds.length := by
  induction actions generalizing s with
  | nil => exact Nat.le_refl _
  | cons a rest ih =>
    -- the last one is still there after one more action
    refine Nat.le_trans (Nat.le_of_not_lt fun hlt => ?_) ih
    obtain ⟨g, hg, -⟩ := happens_step (a := a) (List.getElem?_eq_getElem hlt)
    exact absurd (List.getElem?_eq_some_iff.mp hg).1 (Nat.lt_irrefl _)

/-- Every action keeps a subscription on the track of the log, and loses nothing but what its watch
misses. -/
theorem tracks_step (hf : s.feeds[k]? = some f) (h : f.Tracks s.store.log scope start lost) :
    ∃ g, (s.step a).feeds[k]? = some g ∧ g.Tracks (s.step a).store.log scope start
      fun j => lost j ∨ a = .look k ∧ f.Misses s.store.log j := by
  obtain ⟨g, hg, hact⟩ := happens_step hf
  refine ⟨g, hg, ?_⟩
  have hkeep (hne : a ≠ .look k) (ht : g.Tracks s.store.log scope start lost) :
      g.Tracks s.store.log scope start fun j => lost j ∨ a = .look k ∧ f.Misses s.store.log j := by
    have hlost : (fun j => lost j ∨ a = .look k ∧ f.Misses s.store.log j) = lost := by
      funext j
      rw [eq_false hne, false_and, or_false]
    rw [hlost]
    exact ht
  have hstep : g.Tracks s.store.log scope start
      fun j => lost j ∨ a = .look k ∧ f.Misses s.store.log j := by
    -- only looking loses anything
    cases hact with
    | look =>
      simp only [true_and]
      exact Feed.tracks_look h
    | heedWatch => exact hkeep nofun (Feed.tracks_heedWatch h)
    | forward => exact hkeep nofun (Feed.tracks_forward h)
    | heed => exact hkeep nofun (Feed.tracks_heed h)
    | receive => exact hkeep nofun (Feed.tracks_receive h)
    | leave => exact Feed.tracks_leave
    | cancel r => exact Feed.tracks_cancel
    | nothing _ hne => exact hkeep hne h
  exact hstep.extend log_step

/-- At some time the watch of the subscription went on when so much had been changed since that this
change was no longer kept. -/
def Skipped (actions : List Action) (k j : Nat) : Prop :=
  ∃ n f, actions[n]? = some (.look k) ∧ (run {} (actions.take n)).feeds[k]? = some f ∧
    f.Misses (run {} (actions.take n)).store.log j

/-- A change was skipped before the last action or by it. -/
theorem skipped_append_singleton : Skipped (actions ++ [a]) k j ↔ Skipped actions k j ∨
    a = .look k ∧ ∃ f, (run {} actions).feeds[k]? = some f ∧
    f.Misses (run {} actions).store.log j := by
  constructor
  · rintro ⟨n, f, hn, hf, hj⟩
    -- the action at which it was skipped is one of those before or the last one
    rcases Nat.lt_or_ge n actions.length with hlt | hge
    · rw [List.getElem?_append_left hlt] at hn
      rw [List.take_append_of_le_length (Nat.le_of_lt hlt)] at hf hj
      exact .inl ⟨n, f, hn, hf, hj⟩
    · have hlast : n = actions.length := by
        have hlen := (List.getElem?_eq_some_iff.mp hn).1
        rw [List.length_append, List.length_singleton] at hlen
        omega
      subst hlast
      rw [List.getElem?_concat_length] at hn
      rw [List.take_left] at hf hj
      exact .inr ⟨Option.some.inj hn, f, hf, hj⟩
  · rintro (⟨n, f, hn, hf, hj⟩ | ⟨rfl, f, hf, hj⟩)
    · have hlt := (List.getElem?_eq_some_iff.mp hn).1
      refine ⟨n, f, ?_, ?_, ?_⟩
      · rwa [List.getElem?_append_left hlt]
      · rwa [List.take_append_of_le_length (Nat.le_of_lt hlt)]
      · rwa [List.take_append_of_le_length (Nat.le_of_lt hlt)]
    · refine ⟨actions.length, f, List.getElem?_concat_length, ?_, ?_⟩
      · rwa [List.take_left]
      · rwa [List.take_left]

/-- In the run a subscription to a service was made, when so many changes had been made. -/
inductive Subscribed : List Action → Nat → String → Nat → Prop
  | made (before : List Action) (r : Nat) (registry : LeasedRegistry) (service : String)
    (hr : (run {} before).registries[r]? = some registry) :
    Subscribed (before ++ [.subscribe r service]) (run {} before).feeds.length service
      (run {} before).store.log.length
  | later {actions : List Action} {k start : Nat} {service : String} (a : Action)
    (h : Subscribed actions k service start) : Subscribed (actions ++ [a]) k service start

theorem not_skipped_of_length_le (h : (run {} actions).feeds.length ≤ k) :
    ¬ Skipped actions k j := by
  rintro ⟨n, f, -, hf, -⟩
  have hlt := (List.getElem?_eq_some_iff.mp hf).1
  have hle : (run {} (actions.take n)).feeds.length ≤ (run {} actions).feeds.length := by
    conv => rhs; rw [← List.take_append_drop n actions, run_append]
    exact length_feeds_run
  omega

/-- A subscription follows the log from where it was made. -/
theorem tracks_run (h : Subscribed actions k service start) :
    ∃ f, (run {} actions).feeds[k]? = some f ∧
      f.Tracks (run {} actions).store.log (LeasedRegistry.serviceKey service) start
        (Skipped actions k) := by
  -- on the run: from where the subscription is made, by one action after the other
  induction h with
  | made before r registry service hr =>
    let f := registry.subscribe (run {} before).store service
    have hrun : run {} (before ++ [.subscribe r service]) =
        { run {} before with feeds := (run {} before).feeds ++ [f] } := by
      rw [run_append]
      change (run {} before).subscribe r service = _
      rw [subscribe, hr]
    have hnone (j : Nat) : ¬ Skipped (before ++ [.subscribe r service])
        (run {} before).feeds.length j := by
      rw [skipped_append_singleton]
      rintro (hj | ⟨he, -⟩)
      · exact not_skipped_of_length_le (Nat.le_refl _) hj
      · cases he
    rw [hrun]
    refine ⟨f, List.getElem?_concat_length, fun ho => ?_⟩
    refine ⟨rfl, rfl, rfl, Nat.le_refl _, Nat.le_refl _, fun j hj => absurd hj (hnone j),
      fun n => ?_, ?_⟩
    · -- nothing was looked at yet
      constructor
      · intro hn
        exact absurd hn List.not_mem_nil
      · rintro ⟨hs, hn, -⟩
        exact absurd hn (Nat.not_lt_of_le hs)
    · exact List.Pairwise.nil
  | @later actions k start service a h ih =>
    obtain ⟨f, hf, ht⟩ := ih
    obtain ⟨g, hg, htg⟩ := tracks_step (a := a) hf ht
    have hrun : run {} (actions ++ [a]) = (run {} actions).step a := run_append
    have hskipped : Skipped (actions ++ [a]) k = fun j => Skipped actions k j ∨
        a = .look k ∧ f.Misses (run {} actions).store.log j := by
      funext j
      rw [skipped_append_singleton, hf]
      simp only [Option.some.injEq, exists_eq_left']
    rw [hrun, hskipped]
    exact ⟨g, hg, htg⟩

inductive IsProgress (k : Nat) : Action → Prop
  | look : IsProgress k (.look k)
  | forward : IsProgress k (.forward k)
  | receive : IsProgress k (.receive k)

/-- What advances a subscription is an action of its watch, its forwarder or its receiver. -/
theorem exists_advance (hf : s.feeds[k]? = some f) : ∃ a, IsProgress k a ∧
    (s.step a).feeds[k]? = some (f.advance s.store.log) ∧ (s.step a).store = s.store := by
  have hget (act : Feed → Feed) : (s.onFeed k act).feeds[k]? = some (act f) := by
    rw [getElem?_onFeed hf, if_pos rfl]
  rcases f.advance_eq s.store.log with he | he | he
  · exact ⟨_, .receive, he ▸ hget _, rfl⟩
  · exact ⟨_, .forward, he ▸ hget _, rfl⟩
  · exact ⟨_, .look, he ▸ hget _, rfl⟩

/-- An open subscription can always go on until there is nothing left to do. -/
theorem exists_settled (hf : s.feeds[k]? = some f) (ho : f.IsOpen)
    (h : f.Tracks s.store.log scope start lost) : ∃ more, (∀ a ∈ more, IsProgress k a) ∧
      ∃ g, (s.run more).feeds[k]? = some g ∧ g.IsOpen ∧ g.Settled (s.run more).store.log := by
  -- on how much there is left to do
  induction hp : f.pending s.store.log using Nat.strongRecOn generalizing s f lost with
  | ind m ih =>
    by_cases hsettled : f.Settled s.store.log
    · exact ⟨[], fun a ha => absurd ha List.not_mem_nil, f, hf, ho, hsettled⟩
    · obtain ⟨a, ha, hadvance, hstore⟩ := exists_advance hf
      obtain ⟨g, hg, ht⟩ := tracks_step (a := a) hf h
      obtain rfl : f.advance s.store.log = g := Option.some.inj (hadvance.symm.trans hg)
      have hlt := Feed.pending_advance ho (h ho) hsettled
      rw [hp] at hlt
      obtain ⟨more, hmore, hend⟩ :=
        ih _ hlt hadvance (Feed.isOpen_advance ho (h ho)) ht (by rw [hstore])
      refine ⟨a :: more, ?_, hend⟩
      rintro b hb
      rcases List.mem_cons.mp hb with rfl | hb
      · exact ha
      · exact hmore b hb

end RemoteCall.SharedStore
