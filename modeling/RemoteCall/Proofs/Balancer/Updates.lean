import RemoteCall.Proofs.Balancer
import RemoteCall.Proofs.Selection.Selector

/-! Sequences of updates, with calls between them.

One update is told by the ready set before and after it. What calls do between two updates changes
neither the ready set nor which pools are open, so what holds of one update holds along every
sequence. -/
namespace RemoteCall
open Selection

namespace Balancer
variable {b b' after : Balancer} {instances : List Instance} {i : Instance}
  {e k : Nat} {ready : List Nat}

/-! One update -/

/-- The ready endpoints at whose addresses there is no instance any more. -/
def gone (b : Balancer) (instances : List Instance) : List Nat :=
  b.ready.filter fun e => !(firstAtEach instances).any fun i => i.address == (b.inst e).address

theorem mem_gone : e ∈ b.gone instances ↔ e ∈ b.ready ∧
    (b.inst e).address ∉ instances.map Instance.address := by
  rw [gone, List.mem_filter, Bool.not_eq_true', List.any_eq_false, ← mem_addresses, List.mem_map]
  simp only [beq_iff_eq, not_exists, not_and]

/-- Closing pools, each of them once, closes just these. -/
theorem getElem?_foldl_close {pools : List Pool.State} {ks : List Nat} (hks : ks.Nodup) (j : Nat) :
    (ks.foldl (fun l k => l.modify k Pool.State.close) pools)[j]? =
      pools[j]?.map fun p => if j ∈ ks then p.close else p := by
  induction ks generalizing pools with
  | nil => simp
  | cons k ks ih =>
    obtain ⟨hk, hks⟩ := List.nodup_cons.mp hks
    rw [List.foldl_cons, ih hks, List.getElem?_modify]
    cases pools[j]? with
    | none => rfl
    | some p =>
      -- no pool is closed twice
      by_cases hj : k = j
      · subst hj
        simp [hk]
      · simp [hj, Ne.symm hj]

theorem foldl_closePool (es : List Nat) :
    es.foldl closePool b =
      { b with
        pools := (es.map b.poolOf).foldl (fun l k => l.modify k Pool.State.close) b.pools } := by
  induction es generalizing b with
  | nil => rfl
  | cons e es ih => exact ih

/-- An update that succeeds has claimed endpoints, closed what is gone, and made a fresh picker. -/
theorem update_eq_ok : b.update instances = .ok b' ↔ ∃ after ready,
    b.claimAll (firstAtEach instances) = .ok (after, ready) ∧
      b' = { ((b.gone instances).foldl closePool after).withSelector
        (((b.gone instances).foldl closePool after).selector.rebuild ready) with
        lastError := none } := by
  refine ⟨fun h => ?_, ?_⟩
  · obtain ⟨⟨after, ready⟩, hall, h⟩ := bind_eq_ok.mp h
    exact ⟨after, ready, hall, (Except.ok.inj h).symm⟩
  · rintro ⟨after, ready, hall, rfl⟩
    exact bind_eq_ok.mpr ⟨_, hall, rfl⟩

/-- An update, by the ready set that it has made and by what it has made it of. -/
structure Took (b : Balancer) (instances : List Instance) (b' : Balancer) : Prop where
  claimed : ∃ after, Claimed b after (firstAtEach instances) b'.ready ∧
    (∀ e, b'.selector.endpoint e = after.selector.endpoint e) ∧
    b'.selector.endpoints.length = after.selector.endpoints.length ∧
    ∀ k, b'.pools[k]? = after.pools[k]?.map fun p =>
    if k ∈ (b.gone instances).map b.poolOf then p.close else p
  config_eq : b'.config = b.config

/-- Such an update leaves behind what `Took` says. -/
theorem Sound.took (h : b.Sound) (hu : b.update instances = .ok b') : b.Took instances b' := by
  obtain ⟨after, ready, hall, rfl⟩ := update_eq_ok.mp hu
  have hc := (Claimed.start b).claimAll h nodup_firstAtEach hall
  rw [foldl_closePool]
  -- the endpoints that are gone still stand for the pools that they had
  have hpools : (b.gone instances).map after.poolOf = (b.gone instances).map b.poolOf :=
    List.map_congr_left fun e he => congrArg Endpoint.pool (hc.endpoint_eq h (mem_gone.mp he).1)
  have hnodup : ((b.gone instances).map b.poolOf).Nodup :=
    h.pools.sublist (List.filter_sublist.map _)
  refine ⟨⟨after, ?_, fun _ => rfl, rfl, fun k => ?_⟩, hc.config_eq⟩
  · have hready : (Selector.rebuild after.selector ready).ready = ready :=
      Picker.ready_ofReady _ _ _
    change Claimed b after _ (Selector.rebuild after.selector ready).ready
    rw [hready]
    exact hc
  · rw [hpools]
    exact getElem?_foldl_close hnodup k

namespace Took

theorem insts_eq (h : b.Took instances b') : b'.ready.map b'.inst = firsts instances := by
  obtain ⟨after, hc, hends, -, -⟩ := h.claimed
  rw [← firstAtEach_eq, ← hc.insts]
  exact List.map_congr_left fun e _ => congrArg Endpoint.inst (hends e)

/-- An endpoint stays with all that was counted at it, or it is made anew. -/
theorem kept_or_new (h : b.Took instances b') (hs : b.Sound) (he : e ∈ b'.ready) :
    (e ∈ b.ready ∧ b'.selector.endpoint e = b.selector.endpoint e) ∨
      b.selector.endpoints.length ≤ e ∧ b'.IsNew e ∧ ∀ e₀ ∈ b.ready, b.inst e₀ ≠ b'.inst e := by
  obtain ⟨after, hc, hends, -, -⟩ := h.claimed
  rcases hc.kept e he with hr | ⟨hle, hnew, hne⟩
  · exact .inl ⟨hr, (hends e).trans (hc.endpoint_eq hs hr)⟩
  · rw [IsNew, inst, poolOf, hends]
    exact .inr ⟨hle, hnew, hne⟩

theorem nodup_addresses (h : b.Took instances b') :
    (b'.ready.map fun e => (b'.inst e).address).Nodup := by
  have hn : ((firstAtEach instances).map Instance.address).Nodup := nodup_firstAtEach
  rw [firstAtEach_eq, ← h.insts_eq, List.map_map] at hn
  exact hn

/-- The ready endpoint at the address of an instance. -/
theorem exists_at (h : b.Took instances b') {a : String} (ha : a ∈ instances.map Instance.address) :
    ∃ e ∈ b'.ready, (b'.inst e).address = a := by
  rw [← mem_addresses, firstAtEach_eq, ← h.insts_eq, List.map_map] at ha
  exact List.mem_map.mp ha

theorem address_mem (h : b.Took instances b') (he : e ∈ b'.ready) :
    (b'.inst e).address ∈ instances.map Instance.address := by
  rw [← mem_addresses, firstAtEach_eq, ← h.insts_eq, List.map_map]
  exact List.mem_map.mpr ⟨e, he, rfl⟩

/-- An endpoint stays exactly if its instance does. -/
theorem mem_ready_iff (h : b.Took instances b') (hs : b.Sound) (he : e ∈ b.ready) :
    e ∈ b'.ready ↔ b.inst e ∈ firsts instances := by
  rw [← h.insts_eq, List.mem_map]
  constructor
  · intro he'
    rcases h.kept_or_new hs he' with ⟨-, hsame⟩ | ⟨hle, -, -⟩
    · exact ⟨e, he', congrArg Endpoint.inst hsame⟩
    · exact absurd (hs.known e he) (Nat.not_lt.mpr hle)
  · rintro ⟨x, hx, hinst⟩
    rcases h.kept_or_new hs hx with ⟨hr, hsame⟩ | ⟨-, -, hne⟩
    · have haddress : (b.inst x).address = (b.inst e).address :=
        congrArg Instance.address ((congrArg Endpoint.inst hsame).symm.trans hinst)
      exact List.inj_on_of_nodup_map hs.addresses hr he haddress ▸ hx
    · exact absurd hinst.symm (hne e he)

/-- The pool of an address that is ready before and after, or a new one. -/
theorem pool_or_new (h : b.Took instances b') (he : e ∈ b'.ready) :
    (∃ e₀ ∈ b.ready, (b.inst e₀).address = (b'.inst e).address ∧ b.poolOf e₀ = b'.poolOf e) ∨
      (∀ e₀ ∈ b.ready, (b.inst e₀).address ≠ (b'.inst e).address) ∧
      b.pools.length ≤ b'.poolOf e := by
  obtain ⟨after, hc, hends, -, -⟩ := h.claimed
  rw [inst, poolOf, hends]
  exact hc.pool e he

/-- An address that stays keeps its pool. -/
theorem poolOf_eq (h : b.Took instances b') (hs : b.Sound) {e₀ : Nat} (he₀ : e₀ ∈ b.ready)
    (he : e ∈ b'.ready) (ha : (b.inst e₀).address = (b'.inst e).address) :
    b'.poolOf e = b.poolOf e₀ := by
  rcases h.pool_or_new he with ⟨x, hx, hax, hpool⟩ | ⟨hne, -⟩
  · rw [List.inj_on_of_nodup_map hs.addresses he₀ hx (ha.trans hax.symm), hpool]
  · exact absurd ha (hne e₀ he₀)

/-- Whether the pool of a ready endpoint is closed depends on its address alone. -/
theorem pools_eq (h : b.Took instances b') (hs : b.Sound) (he : e ∈ b.ready) :
    b'.pools[b.poolOf e]? =
      b.pools[b.poolOf e]?.map fun p =>
    if (b.inst e).address ∈ instances.map Instance.address then p else p.close := by
  obtain ⟨after, hc, -, -, hpools⟩ := h.claimed
  obtain ⟨more, hmore, -⟩ := hc.pools
  rw [hpools, hmore, List.getElem?_append_left (hs.bound e he)]
  congr 1
  funext p
  have hiff : b.poolOf e ∈ (b.gone instances).map b.poolOf ↔
      (b.inst e).address ∉ instances.map Instance.address := by
    constructor
    · intro hmem
      obtain ⟨x, hx, heq⟩ := List.mem_map.mp hmem
      obtain ⟨hx, ha⟩ := mem_gone.mp hx
      rwa [List.inj_on_of_nodup_map hs.pools he hx heq.symm]
    · exact fun ha => List.mem_map.mpr ⟨e, mem_gone.mpr ⟨he, ha⟩, rfl⟩
  by_cases ha : (b.inst e).address ∈ instances.map Instance.address <;> simp [hiff, ha]

/-- What there is of pools after an update: the old ones, in place, and new ones that are ready
endpoints' own. -/
theorem pool_cases (h : b.Took instances b') (hs : b.Sound) {p : Pool.State}
    (hp : b'.pools[k]? = some p) :
    (∃ q, b.pools[k]? = some q ∧ p = if k ∈ (b.gone instances).map b.poolOf then q.close else q) ∨
      b.pools.length ≤ k ∧ p.closed = false ∧ p.Balanced 0 ∧ k ∈ b'.ready.map b'.poolOf := by
  obtain ⟨after, hc, hends, -, hpools⟩ := h.claimed
  obtain ⟨more, hmore, hopen⟩ := hc.pools
  rw [hpools, Option.map_eq_some_iff] at hp
  obtain ⟨q, hq, rfl⟩ := hp
  by_cases hk : k < b.pools.length
  · rw [hmore, List.getElem?_append_left hk] at hq
    exact .inl ⟨q, hq, rfl⟩
  · have hnot : k ∉ (b.gone instances).map b.poolOf := by
      intro hmem
      obtain ⟨e, he, rfl⟩ := List.mem_map.mp hmem
      exact hk (hs.bound e (mem_gone.mp he).1)
    have hlt : k < after.pools.length := (List.getElem?_eq_some_iff.mp hq).1
    have howned := hc.owned k (Nat.le_of_not_lt hk) hlt
    have hmap : b'.ready.map b'.poolOf = b'.ready.map after.poolOf :=
      List.map_congr_left fun e _ => congrArg Endpoint.pool (hends e)
    rw [hmore, List.getElem?_append_right (Nat.le_of_not_lt hk)] at hq
    obtain ⟨hopen, hbalanced⟩ := hopen q (List.mem_of_getElem? hq)
    rw [if_neg hnot, hmap]
    exact .inr ⟨Nat.le_of_not_lt hk, hopen, hbalanced, howned⟩

end Took

/-- With leave to open connections, claiming never fails. -/
theorem claim_eq_ok (h : b.config.maxOpen ≠ 0) : ∃ c, b.claim i = .ok c ∧
    c.1.config = b.config := by
  have hpool : Pool.State.ofConfig b.config = .ok { config := b.config } :=
    if_neg (by simpa using h)
  unfold claim
  split
  · dsimp only
    split
    · exact ⟨_, rfl, rfl⟩
    · exact ⟨_, rfl, rfl⟩
  · rw [hpool]
    exact ⟨_, rfl, rfl⟩

theorem claimAll_eq_ok (h : b.config.maxOpen ≠ 0) (l : List Instance) :
    ∃ c, b.claimAll l = .ok c := by
  induction l generalizing b with
  | nil => exact ⟨_, rfl⟩
  | cons i rest ih =>
    obtain ⟨⟨c, e⟩, hclaim, hconfig⟩ := claim_eq_ok (i := i) h
    obtain ⟨⟨c', es⟩, hall⟩ := ih (hconfig.symm ▸ h)
    exact ⟨(c', e :: es), bind_eq_ok.mpr ⟨_, hclaim, bind_eq_ok.mpr ⟨_, hall, rfl⟩⟩⟩

theorem Sound.ready_eq_nil (h : b.Sound) (hmax : b.config.maxOpen = 0) : b.ready = [] := by
  apply List.eq_nil_iff_forall_not_mem.mpr
  intro e he
  have hlt := h.bound e he
  rw [h.funded hmax] at hlt
  exact absurd hlt (Nat.not_lt_zero _)

/-- Without leave to open connections there are no pools, so no instance gets an endpoint. -/
theorem Sound.claimAll_error (h : b.Sound) (hmax : b.config.maxOpen = 0) (rest : List Instance) :
    ∃ err, b.claimAll (i :: rest) = .error err := by
  have hnone : b.at? i.address = none := by rw [at?, h.ready_eq_nil hmax, List.find?_nil]
  have hpool : Pool.State.ofConfig b.config = .error ⟨.config, "max_open must be positive"⟩ :=
    if_pos (by simpa using hmax)
  refine ⟨⟨.config, "max_open must be positive"⟩, bind_eq_error.mpr (.inl ?_)⟩
  rw [claim, hnone, hpool]
  rfl

/-- An update fails only for want of a pool. -/
theorem Sound.update_error_iff (h : b.Sound) :
    (∃ err, b.update instances = .error err) ↔ b.config.maxOpen = 0 ∧ instances ≠ [] := by
  constructor
  · rintro ⟨err, hu⟩
    rcases bind_eq_error.mp hu with hall | ⟨_, _, hok⟩
    · constructor
      · by_contra hmax
        obtain ⟨c, hc⟩ := claimAll_eq_ok hmax (firstAtEach instances)
        rw [hc] at hall
        cases hall
      · rintro rfl
        cases hall
    · cases hok
  · rintro ⟨hmax, hne⟩
    cases instances with
    | nil => exact absurd rfl hne
    | cons i rest =>
      rw [update, firstAtEach, List.eraseDupsBy_cons]
      obtain ⟨err, herr⟩ := h.claimAll_error (i := i) hmax _
      exact ⟨err, bind_eq_error.mpr (.inl herr)⟩

/-- Just the pools of the endpoints that are ready after an update are open then. -/
theorem Sound.open_iff_took (hs : b.Sound) (h : b.Took instances b') {k : Nat} {p : Pool.State}
    (hp : b'.pools[k]? = some p) : p.closed = false ↔ k ∈ b'.ready.map b'.poolOf := by
  rcases h.pool_cases hs hp with ⟨q, hq, hpq⟩ | ⟨-, hopen, -, howned⟩
  · rw [hpq]
    constructor
    · intro hopen
      -- an old pool that is still open was a ready endpoint's, whose address has not gone
      split at hopen
      · cases hopen
      · rename_i hnot
        obtain ⟨e₀, he₀, rfl⟩ := List.mem_map.mp ((hs.open_iff k q hq).mp hopen)
        have ha : (b.inst e₀).address ∈ instances.map Instance.address := by
          by_contra ha
          exact hnot (List.mem_map.mpr ⟨e₀, mem_gone.mpr ⟨he₀, ha⟩, rfl⟩)
        obtain ⟨e, he, hae⟩ := h.exists_at ha
        exact List.mem_map.mpr ⟨e, he, h.poolOf_eq hs he₀ he hae.symm⟩
    · intro hmem
      obtain ⟨e, he, hk⟩ := List.mem_map.mp hmem
      rcases h.pool_or_new he with ⟨e₀, he₀, ha, hpool⟩ | ⟨-, hle⟩
      · have hk₀ : b.poolOf e₀ = k := hpool.trans hk
        rw [if_neg]
        · exact (hs.open_iff k q hq).mpr (List.mem_map.mpr ⟨e₀, he₀, hk₀⟩)
        · intro hgone
          obtain ⟨x, hx, hxk⟩ := List.mem_map.mp hgone
          obtain ⟨hx, hax⟩ := mem_gone.mp hx
          rw [List.inj_on_of_nodup_map hs.pools hx he₀ (hxk.trans hk₀.symm), ha] at hax
          exact hax (h.address_mem he)
      · have hlt := (List.getElem?_eq_some_iff.mp hq).1
        omega
  · exact ⟨fun _ => howned, fun _ => hopen⟩

/-- After an update every ready endpoint has an open pool of its own again. -/
theorem Sound.took_sound (hs : b.Sound) (h : b.Took instances b')
    (hu : b.update instances = .ok b') : b'.Sound where
  known e he := by
    obtain ⟨after, hc, -, hlength, -⟩ := h.claimed
    rw [hlength]
    exact hc.known e he
  bound e he := by
    obtain ⟨after, hc, hends, -, hpools⟩ := h.claimed
    have hlt := hc.bound e he
    rw [poolOf, hends]
    have hnone := (hpools (after.poolOf e)).symm
    rw [List.getElem?_eq_getElem hlt] at hnone
    exact (List.getElem?_eq_some_iff.mp hnone.symm).1
  addresses := h.nodup_addresses
  pools := by
    obtain ⟨after, hc, hends, -, -⟩ := h.claimed
    have hmap : b'.ready.map b'.poolOf = b'.ready.map after.poolOf :=
      List.map_congr_left fun e _ => congrArg Endpoint.pool (hends e)
    rw [hmap]
    exact hc.nodup
  balanced p hp := by
    obtain ⟨k, hk⟩ := List.mem_iff_getElem?.mp hp
    rcases h.pool_cases hs hk with ⟨q, hq, rfl⟩ | ⟨-, -, hbalanced, -⟩
    · have hbalanced := hs.balanced q (List.mem_of_getElem? hq)
      split
      · exact Pool.State.balanced_close hbalanced
      · exact hbalanced
    · exact hbalanced
  open_iff _ _ hp := hs.open_iff_took h hp
  funded hmax := by
    -- without a place for a connection an update succeeds only with nobody to connect to
    rw [h.config_eq] at hmax
    have hnil : instances = [] := by
      by_contra hne
      obtain ⟨err, herr⟩ := hs.update_error_iff.mpr ⟨hmax, hne⟩
      rw [hu] at herr
      cases herr
    have hready : b'.ready = [] := by
      have hinsts := h.insts_eq
      rw [hnil] at hinsts
      exact List.map_eq_nil_iff.mp hinsts
    apply List.eq_nil_iff_forall_not_mem.mpr
    intro p hp
    obtain ⟨k, hk⟩ := List.mem_iff_getElem?.mp hp
    rcases h.pool_cases hs hk with ⟨q, hq, -⟩ | ⟨-, -, -, hmem⟩
    · rw [hs.funded hmax] at hq
      cases hq
    · rw [hready] at hmem
      cases hmem

/-! Between updates -/

/-- Calls count at the endpoints and take connections from their pools; the set and its pools stay.
-/
structure Same (b b' : Balancer) : Prop where
  selector : b.selector.Same b'.selector
  config_eq : b'.config = b.config
  length_eq : b'.pools.length = b.pools.length
  pools : ∀ (k : Nat) (p' : Pool.State), b'.pools[k]? = some p' →
    ∃ p : Pool.State, b.pools[k]? = some p ∧ p'.closed = p.closed ∧ p'.Balanced 0

theorem Sound.same_withSelector (h : b.Sound) {s : Selector} (hs : b.selector.Same s) :
    b.Same (b.withSelector s) :=
  ⟨hs, rfl, rfl, fun _ p hp => ⟨p, hp, rfl, h.balanced p (List.mem_of_getElem? hp)⟩⟩

theorem Sound.same_pool (h : b.Sound) {x : Pool.Step} (hx : x ≠ .close) :
    b.Same (b.step (.pool k x)) := by
  refine ⟨Selector.same_of_endpoints rfl rfl, rfl, List.length_modify _ _ _, fun j p' hp' => ?_⟩
  change (b.pools.modify k _)[j]? = some p' at hp'
  rw [List.getElem?_modify] at hp'
  obtain ⟨p, hp, heq⟩ := Option.map_eq_some_iff.mp hp'
  have hbalanced := h.balanced p (List.mem_of_getElem? hp)
  refine ⟨p, hp, ?_⟩
  split at heq
  · subst heq
    exact ⟨Pool.State.closed_step hbalanced hx, Pool.State.balanced_step hbalanced x⟩
  · subst heq
    exact ⟨rfl, hbalanced⟩

theorem Same.sound (h : b.Same b') (hs : b.Sound) : b'.Sound := by
  have hready : b'.ready = b.ready := h.selector.ready_eq
  have hinst : b'.inst = b.inst := funext fun e => (h.selector.endpoint_eq e).1
  have hpool : b'.poolOf = b.poolOf := funext fun e => (h.selector.endpoint_eq e).2
  refine ⟨?_, ?_, ?_, ?_, ?_, ?_, ?_⟩
  · rw [hready, h.selector.length_eq]
    exact hs.known
  · rw [hready, hpool, h.length_eq]
    exact hs.bound
  · rw [hready, hinst]
    exact hs.addresses
  · rw [hready, hpool]
    exact hs.pools
  · intro p' hp'
    obtain ⟨k, hk⟩ := List.mem_iff_getElem?.mp hp'
    obtain ⟨p, -, -, hbalanced⟩ := h.pools k p' hk
    exact hbalanced
  · intro k p' hk
    obtain ⟨p, hp, hclosed, -⟩ := h.pools k p' hk
    rw [hready, hpool, hclosed]
    exact hs.open_iff k p hp
  · intro hmax
    rw [h.config_eq] at hmax
    exact List.eq_nil_of_length_eq_zero (h.length_eq.trans (congrArg List.length (hs.funded hmax)))

theorem Sound.same (hs : b.Sound) : b.Same b :=
  hs.same_withSelector (.refl _)

/-- Every step is an update, or it leaves the set and its pools as they are. -/
theorem Sound.step_cases (hs : b.Sound) {x : Action} (hx : x.LeavesOpen) :
    (∃ instances, b.update instances = .ok (b.step x)) ∨ b.Same (b.step x) := by
  cases x with
  | update instances =>
    simp only [Balancer.step]
    cases hu : b.update instances with
    | ok b' => exact .inl ⟨instances, hu⟩
    | error e => exact .inr hs.same
  | report e =>
    obtain ⟨h₁, h₂, h₃, h₄⟩ := hs.same
    exact .inr ⟨h₁, h₂, h₃, h₄⟩
  | pick call now draw =>
    simp only [Balancer.step]
    split
    · rename_i s p hp
      exact .inr (hs.same_withSelector (Selector.same_pick hp))
    · exact .inr hs.same
  | finish pick failed now =>
    exact .inr (hs.same_withSelector (Selector.same_finish pick failed now))
  | pool k x =>
    refine .inr (hs.same_pool ?_)
    rintro rfl
    exact hx

/-- Every action that leaves closing to the balancer keeps the ready set and its pools in step. -/
theorem Sound.step (hs : b.Sound) {x : Action} (hx : x.LeavesOpen) :
    (b.step x).Sound ∧ (b.step x).config = b.config := by
  rcases hs.step_cases hx with ⟨instances, hu⟩ | h
  · exact ⟨hs.took_sound (hs.took hu) hu, (hs.took hu).config_eq⟩
  · exact ⟨h.sound hs, h.config_eq⟩

theorem sound_ofMode (mode : SelectMode) (filter : Option Filter) (config : PoolConfig) :
    (ofMode mode filter config).Sound := by
  have hready : (ofMode mode filter config).ready = [] := Picker.ready_ofReady mode (fun _ => 1) []
  refine ⟨?_, ?_, ?_, ?_, nofun, nofun, fun _ => rfl⟩
  · exact hready ▸ nofun
  · exact hready ▸ nofun
  · rw [hready]
    exact List.nodup_nil
  · rw [hready]
    exact List.nodup_nil

theorem Sound.run (hs : b.Sound) {actions : List Action} (h : ∀ x ∈ actions, x.LeavesOpen) :
    (b.run actions).Sound ∧ (b.run actions).config = b.config := by
  induction actions generalizing b with
  | nil => exact ⟨hs, rfl⟩
  | cons x rest ih =>
    obtain ⟨hstep, hconfig⟩ := hs.step (h x List.mem_cons_self)
    obtain ⟨hrun, hrest⟩ := ih hstep fun y hy => h y (List.mem_cons_of_mem x hy)
    exact ⟨hrun, hrest.trans hconfig⟩

/-! Sequences of updates -/

/-- Each ready endpoint has an address of its own and an open pool of its own, and no other pool is
open. -/
structure OnePoolEach (b : Balancer) : Prop where
  nodup_addresses : (b.ready.map fun e => (b.inst e).address).Nodup
  is_open : ∀ e ∈ b.ready, ∃ p, b.pools[b.poolOf e]? = some p ∧ p.closed = false
  existsUnique_of_open : ∀ k p, b.pools[k]? = some p → p.closed = false →
    ∃! e, e ∈ b.ready ∧ b.poolOf e = k

/-- What becomes of a ready set and its pools when the instances are these. -/
structure Follows (b : Balancer) (instances : List Instance) (b' : Balancer) : Prop where
  insts_eq : b'.ready.map b'.inst = firsts instances
  /-- An endpoint stays exactly if there is an equal instance. -/
  stays_iff : ∀ e ∈ b.ready, e ∈ b'.ready ↔ b.inst e ∈ firsts instances
  /-- An endpoint that stays keeps all that was counted at it; any other one is made anew. -/
  kept_or_new : ∀ e ∈ b'.ready, (e ∈ b.ready ∧ b'.selector.endpoint e = b.selector.endpoint e) ∨
    b.selector.endpoints.length ≤ e ∧ b'.IsNew e ∧ ∀ e₀ ∈ b.ready, b.inst e₀ ≠ b'.inst e
  /-- An address that stays keeps its pool, with all that goes on in it. -/
  same_pool : ∀ e₀ ∈ b.ready, ∀ e ∈ b'.ready, (b.inst e₀).address = (b'.inst e).address →
    b'.poolOf e = b.poolOf e₀ ∧ b'.pools[b'.poolOf e]? = b.pools[b.poolOf e₀]?
  closed_of_left : ∀ e ∈ b.ready, (b.inst e).address ∉ instances.map Instance.address →
    ∃ p, b'.pools[b.poolOf e]? = some p ∧ p.closed = true

theorem Sound.onePoolEach (hs : b.Sound) : b.OnePoolEach where
  nodup_addresses := hs.addresses
  is_open e he := by
    have hp := List.getElem?_eq_getElem (hs.bound e he)
    exact ⟨_, hp, (hs.open_iff _ _ hp).mpr (List.mem_map.mpr ⟨e, he, rfl⟩)⟩
  existsUnique_of_open k p hp hopen := by
    obtain ⟨e, he, hk⟩ := List.mem_map.mp ((hs.open_iff k p hp).mp hopen)
    refine ⟨e, ⟨he, hk⟩, ?_⟩
    rintro x ⟨hx, hxk⟩
    exact List.inj_on_of_nodup_map hs.pools hx he (hxk.trans hk.symm)

theorem Sound.follows (hs : b.Sound) (h : b.Took instances b') : b.Follows instances b' where
  insts_eq := h.insts_eq
  stays_iff _ he := h.mem_ready_iff hs he
  kept_or_new _ he := h.kept_or_new hs he
  same_pool e₀ he₀ e he ha := by
    have hpool := h.poolOf_eq hs he₀ he ha
    have hmem : (b.inst e₀).address ∈ instances.map Instance.address := ha ▸ h.address_mem he
    refine ⟨hpool, ?_⟩
    rw [hpool, h.pools_eq hs he₀]
    simp only [hmem, ↓reduceIte, Option.map_id']
  closed_of_left e he ha := by
    obtain ⟨pool, hpool⟩ : ∃ pool, b.pools[b.poolOf e]? = some pool :=
      ⟨_, List.getElem?_eq_getElem (hs.bound e he)⟩
    refine ⟨pool.close, ?_, rfl⟩
    rw [h.pools_eq hs he, hpool, Option.map_some, if_neg ha]

/-- The pools of a balancer follow the instances through every sequence of updates, whatever calls
do between them. An update that fails, which is for want of leave to open connections, changes
nothing. -/
theorem pools_follow_instances (mode : SelectMode) (filter : Option Filter) (config : PoolConfig)
    (actions : List Action) (hactions : ∀ x ∈ actions, x.LeavesOpen) :
    let b := (ofMode mode filter config).run actions
    b.OnePoolEach ∧ ∀ instances,
      (∀ b', b.update instances = .ok b' → b.Follows instances b' ∧ b'.OnePoolEach) ∧
      (∀ e, b.update instances = .error e → b.step (.update instances) = b) ∧
      ((∃ e, b.update instances = .error e) ↔ config.maxOpen = 0 ∧ instances ≠ []) := by
  intro b
  obtain ⟨hs, hconfig⟩ := (sound_ofMode mode filter config).run hactions
  refine ⟨hs.onePoolEach, fun instances => ⟨fun b' hu => ?_, fun e hu => ?_, ?_⟩⟩
  · have ht := hs.took hu
    exact ⟨hs.follows ht, (hs.took_sound ht hu).onePoolEach⟩
  · change (b.update instances).toOption.getD b = b
    rw [hu]
    rfl
  · rw [hs.update_error_iff, hconfig]
    rfl

/-- One address is listed twice; then it leaves, and the other one gets a new weight over its old
pool. -/
theorem pools_follow_reweighted :
    let first : Instance := { name := "user-service", address := "127.0.0.1:9001" }
    let second : Instance := { name := "user-service", address := "127.0.0.1:9002" }
    let heavier : Instance := { second with weight := some 5 }
    let actions : List Action :=
      [.update [first, second, { first with group := some "blue" }],
        .pick ⟨"user-service", "Get", none⟩ 0 0]
    let b := (ofMode .roundRobin none {}).run actions
    (∀ x ∈ actions, x.LeavesOpen) ∧ b.ready = [0, 1] ∧ firsts [heavier, second] = [heavier] ∧
      ∃ b', b.update [heavier, second] = .ok b' ∧ b'.ready = [2] ∧
        b.Follows [heavier, second] b' ∧ b'.OnePoolEach := by
  intro first second heavier actions b
  have hactions : ∀ x ∈ actions, x.LeavesOpen := by
    intro x hx
    obtain rfl | hx := List.mem_cons.mp hx
    · trivial
    · rw [List.mem_singleton.mp hx]
      trivial
  have h := pools_follow_instances .roundRobin none {} actions hactions
  exact ⟨hactions, rfl, by decide, _, rfl, rfl, (h.2 _).1 _ rfl⟩

end Balancer
end RemoteCall
