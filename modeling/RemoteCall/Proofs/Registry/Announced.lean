import RemoteCall.Proofs.Registry.Shared

/-! A subscription is told of the changes of its service, as far as its watch does not fall behind.

The store keeps its latest changes for all watches, whatever services they are of. A watch that goes
on only after more than these were made loses the oldest of what it had yet to see, and with them
every sign that its service changed. -/
namespace RemoteCall.SharedStore
open Store (Change Notice Watch)
variable {s : SharedStore} {actions : List Action} {k start i j : Nat} {f : Feed} {service : String}
  {n : Notice} {c : Change}

def IsChange (log : List Change) (service : String) (i : Nat) (c : Change) : Prop :=
  log[i]? = some c ∧ Store.startsWith c.key (LeasedRegistry.serviceKey service) = true

theorem IsChange.lt {log : List Change} (h : IsChange log service i c) : i < log.length :=
  (List.getElem?_eq_some_iff.mp h.1).1

/-- Only a change that many others followed is skipped. -/
theorem Skipped.lt (h : Skipped actions k j) :
    j + Store.logCapacity < (run {} actions).store.log.length := by
  obtain ⟨n, f, -, -, hj⟩ := h
  -- it was too old at some time of the run, and the log has only grown since
  have hprefix : (run {} (actions.take n)).store.log <+: (run {} actions).store.log := by
    conv => rhs; rw [← List.take_append_drop n actions, run_append]
    exact log_run
  have hlen := hprefix.length_le
  have hoverrun := hj.lt_oldest
  rw [Watch.oldestKept] at hoverrun
  omega

/-- An open subscription follows the log, and has lost nothing but what was skipped. -/
theorem follows_run (h : Subscribed actions k service start)
    (hf : (run {} actions).feeds[k]? = some f) (ho : f.IsOpen) :
    f.Follows (run {} actions).store.log (LeasedRegistry.serviceKey service) start
      (Skipped actions k) := by
  obtain ⟨g, hg, ht⟩ := tracks_run h
  obtain rfl : f = g := Option.some.inj (hf.symm.trans hg)
  exact ht ho

/-- What was received when nothing is left to do. -/
theorem mem_received_iff (h : Subscribed actions k service start)
    (hf : (run {} actions).feeds[k]? = some f) (ho : f.IsOpen)
    (hsettled : f.Settled (run {} actions).store.log) (n : Notice) : n ∈ f.received ↔
      start ≤ n.place ∧ IsChange (run {} actions).store.log service n.place n.change ∧
        ¬ Skipped actions k n.place := by
  have hmem := (follows_run h hf ho).mem_iff n
  rw [hsettled.notices_eq, hsettled.next] at hmem
  rw [hmem]
  constructor
  · rintro ⟨hs, -, hl, hc⟩
    exact ⟨hs, hc, hl⟩
  · rintro ⟨hs, hc, hl⟩
    exact ⟨hs, hc.lt, hl, hc⟩

/-- A subscription that is open can always go on until nothing is left to do. Then it was told, each
once and in order, of the changes of its service since it was made, less those that it skipped. So a
change is followed by something that was told exactly if it or a later one of the service was not
skipped, as it cannot be before the store drops it. -/
theorem changes_announced (h : Subscribed actions k service start)
    (hf : (run {} actions).feeds[k]? = some f) (ho : f.IsOpen) :
    (∃ more, (∀ a ∈ more, IsProgress k a) ∧ ∃ g, (run {} (actions ++ more)).feeds[k]? = some g ∧
      g.IsOpen ∧ g.Settled (run {} (actions ++ more)).store.log) ∧
    (f.Settled (run {} actions).store.log →
      (f.received.map Notice.place).Pairwise (· < ·) ∧
      (∀ n, n ∈ f.received ↔ start ≤ n.place ∧
        IsChange (run {} actions).store.log service n.place n.change ∧
        ¬ Skipped actions k n.place) ∧
      ∀ i c, start ≤ i → IsChange (run {} actions).store.log service i c →
        ((∃ n ∈ f.received, i ≤ n.place) ↔ ∃ j d, i ≤ j ∧
          IsChange (run {} actions).store.log service j d ∧ ¬ Skipped actions k j) ∧
        ((run {} actions).store.log.length ≤ i + Store.logCapacity →
          ∃ n ∈ f.received, i ≤ n.place)) := by
  have hfollows := follows_run h hf ho
  constructor
  · obtain ⟨more, hmore, g, hg, hopen, hsettled⟩ := exists_settled hf ho fun _ => hfollows
    rw [← run_append] at hg hsettled
    exact ⟨more, hmore, g, hg, hopen, hsettled⟩
  · intro hsettled
    have hmem := mem_received_iff h hf ho hsettled
    refine ⟨hsettled.notices_eq ▸ hfollows.increasing, hmem, fun i c hi hc =>
      ⟨⟨?_, ?_⟩, fun hle => ?_⟩⟩
    · rintro ⟨n, hn, hle⟩
      obtain ⟨-, hchange, hkept⟩ := (hmem n).mp hn
      exact ⟨n.place, n.change, hle, hchange, hkept⟩
    · rintro ⟨j, d, hle, hchange, hkept⟩
      exact ⟨⟨j, d⟩, (hmem _).mpr ⟨Nat.le_trans hi hle, hchange, hkept⟩, hle⟩
    · -- the change itself is told of
      have hkept : ¬ Skipped actions k i := fun hs => Nat.not_lt_of_le hle hs.lt
      exact ⟨⟨i, c⟩, (hmem _).mpr ⟨hi, hc, hkept⟩, Nat.le_refl i⟩

def watched : Instance := { name := "a", address := "x" }

def unwatched : Instance := { name := "b", address := "x" }

def watchedChange : Change := .put "/micro/a/x" "\x7b\"name\":\"a\",\"address\":\"x\"\x7d"

def unwatchedChange : Change := .put "/micro/b/x" "\x7b\"name\":\"b\",\"address\":\"x\"\x7d"

/-- A subscription, a change of its service and all that it takes until it is received. -/
def announcing : List Action :=
  [.establish LeasedRegistry.defaultSpan, .subscribe 0 "a", .register 0 watched, .look 0, .look 0,
    .forward 0, .forward 0, .receive 0]

theorem Subscribed.append {before : List Action} (h : Subscribed before k service start)
    (after : List Action) : Subscribed (before ++ after) k service start := by
  induction after generalizing before with
  | nil => rwa [List.append_nil]
  | cons a rest ih =>
    rw [List.append_cons]
    exact ih (.later a h)

/-- Whatever happens after a registry was established and a subscription made through it. -/
theorem subscribed_first (after : List Action) :
    Subscribed ([.establish LeasedRegistry.defaultSpan, .subscribe 0 "a"] ++ after) 0 "a" 0 := by
  have hmade : Subscribed ([.establish LeasedRegistry.defaultSpan] ++ [.subscribe 0 "a"]) 0 "a" 0 :=
    .made [.establish LeasedRegistry.defaultSpan] 0 { lease := 1 } "a" (by decide +kernel)
  exact hmade.append after

/-- A registration is announced to a subscriber that takes all that comes. -/
theorem changes_announced_once : ∃ f, (run {} announcing).feeds[0]? = some f ∧ f.IsOpen ∧
    f.Settled (run {} announcing).store.log ∧
    IsChange (run {} announcing).store.log "a" 0 watchedChange ∧ ∃ n ∈ f.received, 0 ≤ n.place := by
  let f : Feed :=
    { service := "a", lease := 1, watch := { scope := "/micro/a/", next := 1 },
      received := [⟨0, watchedChange⟩] }
  have hf : (run {} announcing).feeds[0]? = some f := by decide +kernel
  have hlog : (run {} announcing).store.log = [watchedChange] := by decide +kernel
  have ho : f.IsOpen := ⟨rfl, rfl⟩
  have hsettled : f.Settled (run {} announcing).store.log := by
    rw [hlog]
    exact ⟨rfl, rfl, rfl, rfl, rfl⟩
  have hchange : IsChange (run {} announcing).store.log "a" 0 watchedChange := by
    rw [hlog]
    exact ⟨rfl, by decide +kernel⟩
  have hmade : Subscribed announcing 0 "a" 0 := subscribed_first _
  refine ⟨f, hf, ho, hsettled, hchange, ?_⟩
  have hall := (changes_announced hmade hf ho).2 hsettled
  apply (hall.2.2 0 _ (Nat.le_refl 0) hchange).2
  rw [hlog]
  decide

/-! Falling behind -/

/-- Through this registry an instance can be registered, as its lease is alive. -/
structure Admits (s : SharedStore) (r : Nat) (registry : LeasedRegistry) : Prop where
  registry_eq : s.registries[r]? = some registry
  broken : s.store.broken = false
  alive : (s.store.lease? registry.lease).isNone = false

theorem step_register {r : Nat} {registry : LeasedRegistry} {i : Instance} {text : String}
    (h : s.Admits r registry) (htext : LeasedRegistry.instanceText i = .ok text) :
    s.step (.register r i) = { s with store := { s.store with
      entries := s.store.entries.insert (LeasedRegistry.instanceKey i)
        { value := text, lease := some registry.lease }
      log := s.store.log ++ [.put (LeasedRegistry.instanceKey i) text] } } := by
  rw [step, register, h.registry_eq]
  dsimp only
  rw [LeasedRegistry.register, htext]
  dsimp only
  rw [Store.put, if_neg (ne_true_of_eq_false h.broken), Option.filter_some,
    if_neg (ne_true_of_eq_false h.alive)]
  rfl

/-- An instance may be registered again and again. -/
theorem run_replicate_register {r : Nat} {registry : LeasedRegistry} {i : Instance} {text : String}
    (m : Nat) (h : s.Admits r registry) (htext : LeasedRegistry.instanceText i = .ok text) :
    (s.run (List.replicate m (.register r i))).store.log =
        s.store.log ++ List.replicate m (.put (LeasedRegistry.instanceKey i) text) ∧
      (s.run (List.replicate m (.register r i))).feeds = s.feeds := by
  induction m generalizing s with
  | zero =>
    rw [List.replicate_zero, List.replicate_zero, List.append_nil]
    exact ⟨rfl, rfl⟩
  | succ m ih =>
    have hstep := step_register h htext
    -- the lease is still alive
    have hnext : (s.step (.register r i)).Admits r registry := by
      rw [hstep]
      exact ⟨h.registry_eq, h.broken, h.alive⟩
    obtain ⟨hlog, hfeeds⟩ := ih hnext
    rw [List.replicate_succ, List.replicate_succ, run_cons, hlog, hfeeds, hstep, List.append_assoc,
      List.singleton_append]
    exact ⟨rfl, rfl⟩

/-- Changes of other services are passed over one by one. -/
theorem run_replicate_look (m : Nat) (hf : s.feeds[k]? = some f) (hended : f.ended = false)
    (hstopped : f.watch.stopped = false) (hhand : f.watch.inHand = none)
    (hkept : Watch.oldestKept s.store.log ≤ f.watch.next)
    (hm : f.watch.next + m ≤ s.store.log.length)
    (hout : ∀ i c, f.watch.next ≤ i → s.store.log[i]? = some c →
      Store.startsWith c.key f.watch.scope = false) :
    (s.run (List.replicate m (.look k))).store = s.store ∧
      (s.run (List.replicate m (.look k))).feeds[k]? =
        some { f with watch := { f.watch with next := f.watch.next + m } } := by
  -- each look leaves what the next one needs: nothing in hand, and the change still kept
  induction m generalizing s f with
  | zero => exact ⟨rfl, hf⟩
  | succ m ih =>
    have hlt : f.watch.next < s.store.log.length := by omega
    have hc := List.getElem?_eq_getElem hlt
    have hlook := Feed.look_of_outside hended hstopped hhand hkept hc (hout _ _ (Nat.le_refl _) hc)
    have hfeed : (s.step (.look k)).feeds[k]? =
        some { f with watch := { f.watch with next := f.watch.next + 1 } } := by
      have hget : (s.step (.look k)).feeds[k]? = some (if k = k then f.look s.store.log else f) :=
        getElem?_onFeed hf
      rw [hget, if_pos rfl, hlook]
    have hnext : f.watch.next + (m + 1) = f.watch.next + 1 + m := by omega
    rw [hnext]
    apply ih hfeed hended hstopped hhand
    · exact Nat.le_succ_of_le hkept
    · exact hnext ▸ hm
    · intro i c hi
      exact hout i c (Nat.le_of_succ_le hi)

/-- A subscription, a change of its service, then as many changes of another one as the store keeps,
and only then the watch goes on. -/
def overrun : List Action :=
  [.establish LeasedRegistry.defaultSpan, .subscribe 0 "a"] ++ (.register 0 watched ::
    (List.replicate Store.logCapacity (.register 0 unwatched) ++
      List.replicate (Store.logCapacity + 1) (.look 0)))

def overrunLog : List Change := watchedChange :: List.replicate Store.logCapacity unwatchedChange

theorem length_overrunLog : overrunLog.length = Store.logCapacity + 1 := by
  rw [overrunLog, List.length_cons, List.length_replicate]

theorem oldestKept_overrunLog : Watch.oldestKept overrunLog = 1 := by
  rw [Watch.oldestKept, length_overrunLog, Nat.add_sub_cancel_left]

theorem overrunLog_outside (hi : 1 ≤ i) (hc : overrunLog[i]? = some c) :
    Store.startsWith c.key "/micro/a/" = false := by
  obtain ⟨i, rfl⟩ : ∃ m, i = m + 1 := ⟨i - 1, (Nat.sub_add_cancel hi).symm⟩
  rw [overrunLog, List.getElem?_cons_succ] at hc
  obtain rfl := List.eq_of_mem_replicate (List.mem_of_getElem? hc)
  decide +kernel

def waiting (next : Nat) : Feed :=
  { service := "a", lease := 1, watch := { scope := "/micro/a/", next } }

/-- The first look only finds out that the change of the service is no longer kept. -/
theorem look_waiting : (waiting 0).look overrunLog = waiting 1 := by
  have hlt : (waiting 0).watch.next < 1 := Nat.zero_lt_one
  rw [Feed.look_of_none rfl rfl rfl, Watch.look, oldestKept_overrunLog, if_pos hlt]
  rfl

theorem overrun_first (hlog : s.store.log = overrunLog) (hfeed : s.feeds[0]? = some (waiting 0)) :
    (s.step (.look 0)).store.log = overrunLog ∧
    (s.step (.look 0)).feeds[0]? = some (waiting 1) := by
  have hget : (s.step (.look 0)).feeds[0]? =
      some (if 0 = 0 then (waiting 0).look s.store.log else waiting 0) := getElem?_onFeed hfeed
  rw [hget, if_pos rfl, hlog, look_waiting]
  exact ⟨hlog, rfl⟩

theorem overrun_rest (hlog : s.store.log = overrunLog) (hfeed : s.feeds[0]? = some (waiting 1)) :
    (s.run (List.replicate Store.logCapacity (.look 0))).store.log = overrunLog ∧
      (s.run (List.replicate Store.logCapacity (.look 0))).feeds[0]? =
        some (waiting (Store.logCapacity + 1)) := by
  have hnext : (waiting 1).watch.next = 1 := rfl
  have hkept : Watch.oldestKept s.store.log ≤ (waiting 1).watch.next := by
    apply Nat.le_of_eq
    rw [hlog, oldestKept_overrunLog, hnext]
  have hlength : (waiting 1).watch.next + Store.logCapacity ≤ s.store.log.length := by
    apply Nat.le_of_eq
    rw [hlog, length_overrunLog, hnext, Nat.add_comm]
  have hout : ∀ i c, 1 ≤ i → s.store.log[i]? = some c →
      Store.startsWith c.key "/micro/a/" = false := by
    intro i c hi hc
    rw [hlog] at hc
    exact overrunLog_outside hi hc
  obtain ⟨hstore, hlast⟩ :=
    run_replicate_look Store.logCapacity hfeed rfl rfl rfl hkept hlength hout
  rw [hnext, Nat.add_comm] at hlast
  rw [hstore]
  exact ⟨hlog, hlast⟩

theorem run_overrun : (run {} overrun).store.log = overrunLog ∧
    (run {} overrun).feeds[0]? = some (waiting (Store.logCapacity + 1)) := by
  rw [overrun, run_append, run_cons, run_append, List.replicate_succ, run_cons]
  -- the first three actions are run; of the many after them only the number counts
  generalize hs : step (run {} [.establish LeasedRegistry.defaultSpan, .subscribe 0 "a"])
    (.register 0 watched) = s
  have hadmits : s.Admits 0 { lease := 1 } := by
    rw [← hs]
    exact ⟨by decide +kernel, by decide +kernel, by decide +kernel⟩
  have hlog : s.store.log = [watchedChange] := by
    rw [← hs]
    decide +kernel
  have hfeed : s.feeds[0]? = some (waiting 0) := by
    rw [← hs]
    decide +kernel
  have htext : LeasedRegistry.instanceText unwatched =
      .ok "\x7b\"name\":\"b\",\"address\":\"x\"\x7d" := rfl
  have hkey : LeasedRegistry.instanceKey unwatched = "/micro/b/x" := by decide +kernel
  -- nobody looks while the log fills up
  obtain ⟨hput, hfeeds⟩ := run_replicate_register Store.logCapacity hadmits htext
  rw [hlog, hkey, List.singleton_append, ← unwatchedChange, ← overrunLog] at hput
  rw [← hfeeds] at hfeed
  obtain ⟨hlook, hnext⟩ := overrun_first hput hfeed
  exact overrun_rest hlook hnext

/-- A change can be followed by nothing that is told: what is told of a service depends on how many
changes there are of all others. -/
theorem change_unannounced :
    ¬ ∀ (actions : List Action) (k start : Nat) (service : String) (f : Feed),
      Subscribed actions k service start → (run {} actions).feeds[k]? = some f → f.IsOpen →
      f.Settled (run {} actions).store.log → ∀ i c, start ≤ i →
      IsChange (run {} actions).store.log service i c → ∃ n ∈ f.received, i ≤ n.place := by
  intro h
  obtain ⟨hlog, hfeed⟩ := run_overrun
  have hsettled : (waiting (Store.logCapacity + 1)).Settled (run {} overrun).store.log := by
    rw [hlog]
    exact ⟨length_overrunLog.symm, rfl, rfl, rfl, rfl⟩
  have hchange : IsChange (run {} overrun).store.log "a" 0 watchedChange := by
    rw [hlog]
    exact ⟨rfl, by decide +kernel⟩
  obtain ⟨n, hn, -⟩ := h overrun 0 0 "a" _ (subscribed_first _) hfeed ⟨rfl, rfl⟩ hsettled 0 _
    (Nat.le_refl 0) hchange
  exact List.not_mem_nil hn

end RemoteCall.SharedStore
