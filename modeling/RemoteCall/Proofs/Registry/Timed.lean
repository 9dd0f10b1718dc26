import RemoteCall.Proofs.Registry.Timers

/-! Which leases a store keeps in time.

The lease of an open registry stays until it is revoked. Any other lease is gone with the first
sweep after its end, and sweeps are never further apart than their interval. -/
namespace RemoteCall.TimedStore
variable {s : TimedStore} {a : Action} {actions : List Action} {start : Int} {r l : Nat}
  {registry : LeasedRegistry}

/-! Leases that are not renewed -/

/-- A timed store is what its requests make of it. -/
theorem run_requests : (Store.new start).run ((new start).requests actions) =
    ((new start).run actions).store :=
  Eq.symm store_run

theorem run_gone (hx : ((new start).run actions).store.lease? l = none)
    (hl : l ≤ ((new start).run actions).store.granted) (later : List Action) :
    ((new start).run (actions ++ later)).store.Gone l := by
  refine sound_run.gone ?_
  rw [run_append, store_run]
  exact Store.lease?_run_eq_none hl hx _

/-- A lease whose end has come is gone with a sweep. -/
theorem lease?_sweep_eq_none {y : Store.Lease} (hs : s.store.Sound) (hb : s.store.broken = false)
    (hdue : s.sweepDue = s.now) (hy : ∀ z, s.store.lease? l = some z → z = y)
    (hle : y.expires ≤ s.now) : (s.step (.shared .sweep)).store.lease? l = none := by
  have hstore : (s.step (.shared .sweep)).store = s.store.step (.sweep []) := by
    rw [store_step, request?, does?, if_pos hdue]
    rfl
  rw [hstore]
  apply Option.eq_none_iff_forall_ne_some.mpr
  intro z hz
  rcases (Store.lease?_step hs).mp hz with ⟨hg, -⟩ | ⟨hz, -, hclosed⟩
  · cases hg
  · exact hclosed (.expire [] hb ⟨y, hy z hz ▸ hz, hle⟩)

/-- Registering puts an instance under the lease of the registry. -/
theorem lastPut_register {i : Instance} {text : String}
    (hr : ((new start).run actions).shared.registries[r]? = some registry)
    (hb : ((new start).run actions).store.broken = false)
    (halive : (((new start).run actions).store.lease? registry.lease).isSome = true)
    (htext : LeasedRegistry.instanceText i = .ok text) :
    Store.LastPut start ((new start).requests (actions ++ [.shared (.register r i)]))
      (LeasedRegistry.instanceKey i) ⟨text, some registry.lease⟩ := by
  have hreq : ((new start).run actions).request? (.shared (.register r i)) =
      some (.put (LeasedRegistry.instanceKey i) text (some registry.lease)) := by
    rw [request?, does?, Option.bind_some, SharedStore.request?, hr, htext]
    · intro r h
      cases h
    · intro h
      cases h
  rw [requests_concat, hreq]
  refine @Store.LastPut.put start _ _ ⟨text, some registry.lease⟩ ?_
  rw [run_requests]
  exact Store.succeeds_put hb halive

/-- Clocks can hold when all leases end that were granted. -/
theorem broken_of_limit (hstart : -Clock.limit ≤ start)
    (hlimit : ∀ span, .grant span ∈ (new start).requests actions →
      ((new start).run actions).now + span.nanos < Clock.limit) :
    ((new start).run actions).store.broken = false := by
  rw [← run_requests]
  refine Store.broken_run hstart fun span hspan => ?_
  rw [run_requests]
  exact hlimit span hspan

/-- As long as a lease is there, so is what was put under it last. -/
theorem get?_of_lastPut {key : String} {e : Store.Entry} (hl : e.lease = some l)
    (hput : Store.LastPut start ((new start).requests actions) key e)
    (halive : (((new start).run actions).store.lease? l).isSome = true) :
    ((new start).run actions).store.entries.get? key = some e := by
  rw [← run_requests] at halive ⊢
  exact hput.get?_eq hl halive

/-- What an open registry put in last under its lease is there and listed. -/
theorem kept_of_open {i : Instance} {text : String}
    (halive : (((new start).run actions).store.lease? registry.lease).isSome = true)
    (hput : Store.LastPut start ((new start).requests actions) (LeasedRegistry.instanceKey i)
      ⟨text, some registry.lease⟩) :
    let s := (new start).run actions
    s.store.entries.get? (LeasedRegistry.instanceKey i) = some ⟨text, some registry.lease⟩ ∧
      (s.store.broken = false → LeasedRegistry.readInstance? text = some i →
        (∀ key e, s.store.entries.get? key = some e →
          Store.startsWith key (LeasedRegistry.serviceKey i.name) = true →
          (LeasedRegistry.readInstance? e.value).isSome = true) →
        ∃ listed, LeasedRegistry.list s.store i.name = .ok listed ∧ i ∈ listed) := by
  intro s
  have he : s.store.entries.get? (LeasedRegistry.instanceKey i) = some
      ⟨text, some registry.lease⟩ :=
    get?_of_lastPut rfl hput halive
  exact ⟨he, fun hb hi hread => LeasedRegistry.mem_list hb he hi hread⟩

/-- Before the end of its span a lease is there, with what was put under it. -/
theorem kept_before_end {t : Int} {span : Duration}
    (hgiven : Store.LastGiven start ((new start).requests actions) l t span)
    (hlt : ((new start).run actions).now < t + span.nanos) :
    let s := (new start).run actions
    s.store.lease? l = some ⟨span, t + span.nanos⟩ ∧
      ∀ key e, e.lease = some l → Store.LastPut start ((new start).requests actions) key e →
        s.store.entries.get? key = some e := by
  intro s
  have hx : s.store.lease? l = some ⟨span, t + span.nanos⟩ := by
    rw [← run_requests]
    refine hgiven.alive ?_
    rw [run_requests]
    exact hlt
  refine ⟨hx, fun key e hl hput => get?_of_lastPut hl hput ?_⟩
  rw [hx]
  rfl

/-- The sweep that comes at or after the end of its span takes a lease away for good. -/
theorem gone_with_sweep {t : Int} {span : Duration}
    (hgiven : Store.LastGiven start ((new start).requests actions) l t span)
    (hb : ((new start).run actions).store.broken = false)
    (hle : t + span.nanos ≤ ((new start).run actions).now)
    (hdue : ((new start).run actions).sweepDue = ((new start).run actions).now)
    (later : List Action) :
    ((new start).run (actions ++ .shared .sweep :: later)).store.Gone l := by
  have hgone : (((new start).run actions).step (.shared .sweep)).store.lease? l = none :=
    lease?_sweep_eq_none sound_run hb hdue (fun z hz => hgiven.lease_eq (run_requests ▸ hz)) hle
  have hl : l ≤ (((new start).run actions).step (.shared .sweep)).store.granted := by
    have hl := hgiven.le_granted
    rw [run_requests] at hl
    exact Nat.le_trans hl granted_le_step
  rw [List.append_cons]
  refine run_gone ?_ ?_ later
  · rw [run_concat]
    exact hgone
  · rw [run_concat]
    exact hl

/-- A sweep passes within its interval after the end of a lease. -/
theorem gone_after_interval {t : Int} {span : Duration}
    (hgiven : Store.LastGiven start ((new start).requests actions) l t span)
    (hb : ((new start).run actions).store.broken = false)
    (hle : t + span.nanos + Store.sweepInterval.nanos ≤ ((new start).run actions).now) :
    ((new start).run actions).store.Gone l := by
  have hp : ((new start).run actions).Punctual := punctual_run
  refine sound_run.gone (Option.eq_none_iff_forall_ne_some.mpr fun y hy => ?_)
  have hy' := hgiven.lease_eq (run_requests.symm ▸ hy)
  have hlt := (hp.swept hb l y hy).2
  have hahead := hp.sweep_ahead
  rw [hy'] at hlt
  dsimp only at hlt
  omega

/-- In time, a store keeps the leases of open registries for good and all others for the span since
they were granted or renewed last; after that, they are gone with the next sweep. As long as a lease
is there, so are the keys that were put under it last and not deleted, and so are the instances that
an open registry registered. -/
theorem leases_kept_in_time (start : Int) (actions : List Action) :
    let s := (new start).run actions
    let asked := (new start).requests actions
    -- clocks can hold when the leases end that are granted
    (-Clock.limit ≤ start → (∀ span, .grant span ∈ asked → s.now + span.nanos < Clock.limit) →
      s.store.broken = false) ∧
    (∀ (r : Nat) (registry : LeasedRegistry), s.shared.registries[r]? = some registry →
      registry.closed = false →
      (s.step (.shared .sweep)).store.lease? registry.lease = s.store.lease? registry.lease ∧
      (.revoke registry.lease ∉ asked → (s.store.lease? registry.lease).isSome = true ∧
        (∀ i text, s.store.broken = false → LeasedRegistry.instanceText i = .ok text →
          Store.LastPut start ((new start).requests (actions ++ [.shared (.register r i)]))
            (LeasedRegistry.instanceKey i) ⟨text, some registry.lease⟩) ∧
        ∀ i text,
          Store.LastPut start asked (LeasedRegistry.instanceKey i) ⟨text, some registry.lease⟩ →
          s.store.entries.get? (LeasedRegistry.instanceKey i) = some ⟨text, some registry.lease⟩ ∧
          (s.store.broken = false → LeasedRegistry.readInstance? text = some i →
            (∀ key e, s.store.entries.get? key = some e →
              Store.startsWith key (LeasedRegistry.serviceKey i.name) = true →
              (LeasedRegistry.readInstance? e.value).isSome = true) →
            ∃ listed, LeasedRegistry.list s.store i.name = .ok listed ∧ i ∈ listed))) ∧
    ∀ l t span, Store.LastGiven start asked l t span → s.store.broken = false →
      (s.now < t + span.nanos → s.store.lease? l = some ⟨span, t + span.nanos⟩ ∧
        ∀ key e, e.lease = some l → Store.LastPut start asked key e →
          s.store.entries.get? key = some e) ∧
      (t + span.nanos ≤ s.now → s.sweepDue = s.now →
        ∀ later, ((new start).run (actions ++ .shared .sweep :: later)).store.Gone l) ∧
      (t + span.nanos + Store.sweepInterval.nanos ≤ s.now → s.store.Gone l) := by
  intro s asked
  refine ⟨broken_of_limit, fun r registry hr ho => ?_, fun l t span hgiven hb => ?_⟩
  · refine ⟨punctual_run.lease?_sweep sound_run hr ho, fun hrevoke => ?_⟩
    have halive : (s.store.lease? registry.lease).isSome = true := alive_run hr ho hrevoke
    refine ⟨halive, fun i text hb htext => ?_, fun i text hput => ?_⟩
    · exact lastPut_register hr hb halive htext
    · exact kept_of_open halive hput
  · refine ⟨kept_before_end hgiven, fun hle hdue later => ?_, gone_after_interval hgiven hb⟩
    exact gone_with_sweep hgiven hb hle hdue later

def renewing (i : Instance) : List Action :=
  [.shared (.establish (.ofMillis 300)), .renew 0, .shared .sweep, .shared (.register 0 i),
    .shared (.pass 100000000), .renew 0, .shared .sweep]

def ending : List Action :=
  [.shared .sweep, .shared (.grant (.ofMillis 150)), .shared (.put "k" "v" (some 1)),
    .shared (.pass 100000000), .shared .sweep]

/-- A lease that is renewed is there with what is registered under it, and one that is not is gone
with the sweep after its end. -/
theorem leases_kept_in_time_ending :
    let i : Instance := { name := "a", address := "h:1" }
    (∃ listed, LeasedRegistry.list ((new 0).run (renewing i)).store "a" = .ok listed ∧ i ∈ listed) ∧
      ((new 0).run ending).store.entries.get? "k" = some ⟨"v", some 1⟩ ∧
      ∀ later, ((new 0).run (ending ++ .shared (.pass 100000000) :: .shared .sweep ::
        later)).store.Gone 1 := by
  intro i
  let text := "\x7b\"name\":\"a\",\"address\":\"h:1\"\x7d"
  let given : List Store.Action := [.sweep []] ++ [.grant (.ofMillis 150)]
  have hasked : (new 0).requests ending = given ++ [.put "k" "v" (some 1)] ++
      [.pass 100000000] ++ [.sweep []] := by
    decide +kernel
  have hgiven : Store.LastGiven 0 ((new 0).requests ending) 1 0 (.ofMillis 150) := by
    have hfirst : Store.LastGiven 0 given 1 0 (.ofMillis 150) := .given _ (.grant rfl)
    exact hasked ▸ ((hfirst.since (.put "k" "v" (some 1)) nofun nofun).since
      (.pass 100000000) nofun nofun).since
      (.sweep []) nofun nofun
  refine ⟨?_, ?_, fun later => ?_⟩
  · obtain ⟨-, hopen, -⟩ := leases_kept_in_time 0 (renewing i)
    obtain ⟨-, hkept⟩ := hopen 0 { lease := 1 } (by decide +kernel) rfl
    obtain ⟨-, -, hlisted⟩ := hkept (by decide +kernel)
    have hasked : (new 0).requests (renewing i) =
        [.grant (.ofMillis 300), .keepAlive 1, .sweep []] ++
        [.put "/micro/a/h:1" text (some 1)] ++ [.pass 100000000] ++ [.keepAlive 1] ++
        [.sweep []] := by decide +kernel
    have hput : Store.LastPut 0 ([.grant (.ofMillis 300), .keepAlive 1, .sweep []] ++
        [.put "/micro/a/h:1" text (some 1)]) "/micro/a/h:1" ⟨text, some 1⟩ :=
      @Store.LastPut.put 0 _ _ ⟨text, some 1⟩ ⟨none, rfl⟩
    have hsince := ((hput.since (.pass 100000000) nofun).since (.keepAlive 1) nofun).since
      (.sweep []) nofun
    obtain ⟨-, hlist⟩ := hlisted i text (hasked ▸ hsince)
    refine hlist (by decide +kernel) (by decide +kernel) fun key e he _ => ?_
    have hentries : ((new 0).run (renewing i)).store.entries.entries =
        [("/micro/a/h:1", ⟨text, some 1⟩)] := by
      decide +kernel
    rw [KeyMap.get?_eq_some, hentries, List.mem_singleton] at he
    cases he
    decide +kernel
  · obtain ⟨-, -, hleft⟩ := leases_kept_in_time 0 ending
    obtain ⟨hthere, -⟩ := hleft 1 0 (.ofMillis 150) hgiven (by decide +kernel)
    obtain ⟨-, hkeys⟩ := hthere (by decide +kernel)
    refine hkeys "k" ⟨"v", some 1⟩ rfl ?_
    have hput : Store.LastPut 0 (given ++ [.put "k" "v" (some 1)]) "k" ⟨"v", some 1⟩ :=
      @Store.LastPut.put 0 _ _ ⟨"v", some 1⟩ ⟨none, rfl⟩
    exact hasked ▸ (hput.since (.pass 100000000) nofun).since (.sweep []) nofun
  · obtain ⟨-, -, hleft⟩ := leases_kept_in_time 0 (ending ++ [.shared (.pass 100000000)])
    have hlater : (new 0).requests (ending ++ [.shared (.pass 100000000)]) =
        (new 0).requests ending ++ [.pass 100000000] := by decide +kernel
    have hgiven' := hgiven.since (.pass 100000000) nofun nofun
    obtain ⟨-, hgone, -⟩ := hleft 1 0 (.ofMillis 150) (hlater ▸ hgiven') (by decide +kernel)
    rw [List.append_cons]
    exact hgone (by decide +kernel) (by decide +kernel) later

end RemoteCall.TimedStore
