import RemoteCall.Balancer.Action
import RemoteCall.Proofs.Data.Outcome
import RemoteCall.Proofs.Pool.Admission
import Mathlib.Data.List.Induction
import Mathlib.Data.List.Nodup

/-! What an update makes of the ready set and of the pools behind it.

An update goes through the instances one after the other and claims an endpoint for each. What it
finds in the ready set stays as it is meanwhile, so each claim can be told from the ready set before
the update. -/
namespace RemoteCall

namespace Pool.State
variable {s : State} {x : Step}

/-- A pool is closed by nothing else than being closed. -/
theorem closed_step (h : s.Balanced 0) (hx : x ≠ .close) : (s.step x).closed = s.closed := by
  have hs := h.stepping x
  generalize s.step x = s' at hs
  have hfree (s : State) : s.freeSlot.closed = s.closed := by
    unfold freeSlot
    split <;> rfl
  cases hs with
  | asks t s' ht hp ha => cases ha <;> rfl
  | opensNot t c e hp => exact hfree _
  | releases t c hp =>
    unfold giveBack
    split
    · rfl
    · dsimp only
      split <;> rfl
  | drops t c p hp hc => exact hfree _
  | frees t p hp hn => exact hfree _
  | closes => exact absurd rfl hx
  | _ => rfl

end Pool.State

namespace Balancer
open Selection (Selector Endpoint Picker)
variable {b b' b₀ : Balancer} {instances done rest : List Instance} {i : Instance}
  {e k : Nat} {es : List Nat}

/-! The first instance at each address -/

def firsts (instances : List Instance) : List Instance :=
  (instances.zipIdx.filter fun x => (instances.take x.2).all fun y => y.address != x.1.address).map
    Prod.fst

/-- An instance at the end counts unless one with its address stands before it. -/
theorem firsts_concat : firsts (instances ++ [i]) =
    if instances.any (fun y => y.address == i.address) then firsts
      instances else firsts instances ++ [i] := by
  have hbefore : (instances.zipIdx.filter fun x =>
        ((instances ++ [i]).take x.2).all fun y => y.address != x.1.address) =
      instances.zipIdx.filter fun x => (instances.take x.2).all fun y =>
      y.address != x.1.address := by
    apply List.filter_congr
    intro x hx
    -- what stands before an instance does not change when one is added at the end
    have hlt := List.snd_lt_of_mem_zipIdx hx
    rw [List.take_append_of_le_length (by omega)]
  rw [firsts, List.zipIdx_append, List.filter_append, hbefore, List.map_append, ← firsts]
  simp only [List.zipIdx_cons, List.zipIdx_nil, Nat.zero_add, List.filter_cons, List.filter_nil,
    List.take_left']
  have hany : (instances.all fun y => y.address != i.address) =
      !instances.any fun y => y.address == i.address := by
    rw [List.not_any_eq_all_not]
    rfl
  rw [hany]
  cases instances.any fun y => y.address == i.address <;> simp

theorem firstAtEach_concat : firstAtEach (instances ++ [i]) =
    if instances.any (fun y => y.address == i.address) then firstAtEach instances
    else firstAtEach instances ++ [i] := by
  -- on the length, because the first instance drops out all others at its address
  induction hn : instances.length using Nat.strong_induction_on generalizing instances with
  | _ n ih =>
    cases instances with
    | nil => rfl
    | cons a rest =>
      have hlt : (rest.filter fun y => y.address != a.address).length < n :=
        hn ▸ Nat.lt_succ_of_le (List.length_filter_le _ _)
      have hne : (fun y : Instance => decide ((y.address == a.address) = false)) =
          fun y => y.address != a.address := by
        funext y
        cases h : y.address == a.address <;> simp [bne, h]
      have ih := ih _ hlt rfl
      simp only [firstAtEach, List.cons_append, List.eraseDupsBy_cons,
        List.any_cons, List.filter_append, hne] at ih ⊢
      by_cases ha : i.address = a.address
      · simp [ha]
      · have hkeep : [i].filter (fun y => y.address != a.address) = [i] := by simp [ha]
        have hany : ((rest.filter fun y => y.address != a.address).any fun y =>
            y.address == i.address) =
            rest.any fun y => y.address == i.address := by
          rw [List.any_filter]
          congr 1
          funext y
          by_cases hy : y.address = i.address
          · simp [hy, ha]
          · simp [hy]
        have hai : (a.address == i.address) = false := by simpa using Ne.symm ha
        rw [hkeep, ih, hany, hai, Bool.false_or]
        split
        · rfl
        · rfl

/-- What is kept of the instances is those before which none with the same address stands. -/
theorem firstAtEach_eq : firstAtEach instances = firsts instances := by
  induction instances using List.reverseRecOn with
  | nil => rfl
  | append_singleton before i ih => rw [firstAtEach_concat, firsts_concat, ih]

/-- Every address is still there. -/
theorem mem_addresses {a : String} :
    a ∈ (firstAtEach instances).map Instance.address ↔ a ∈ instances.map Instance.address := by
  induction instances using List.reverseRecOn with
  | nil => rfl
  | append_singleton before i ih =>
    rw [firstAtEach_concat]
    split
    · rename_i hany
      obtain ⟨y, hy, hyi⟩ := List.any_eq_true.mp hany
      rw [ih, List.map_append, List.mem_append, List.map_singleton, List.mem_singleton]
      refine ⟨.inl, fun h => h.elim id ?_⟩
      rintro rfl
      exact List.mem_map.mpr ⟨y, hy, eq_of_beq hyi⟩
    · rw [List.map_append, List.map_append, List.mem_append, List.mem_append, ih]

/-- No address is there twice. -/
theorem nodup_firstAtEach : ((firstAtEach instances).map Instance.address).Nodup := by
  induction instances using List.reverseRecOn with
  | nil => exact List.nodup_nil
  | append_singleton before i ih =>
    rw [firstAtEach_concat]
    split
    · exact ih
    · rename_i hany
      rw [List.map_append, List.map_singleton]
      refine List.nodup_append.mpr ⟨ih, List.nodup_singleton _, ?_⟩
      intro a ha x hx hax
      obtain rfl := List.mem_singleton.mp hx
      obtain ⟨y, hy, hyi⟩ := List.mem_map.mp (mem_addresses.mp ha)
      exact hany (List.any_eq_true.mpr ⟨y, hy, by simpa using hyi.trans hax⟩)

/-! Claims -/

/-- Each ready endpoint has an address and a pool of its own, and the pools that are open are
theirs. -/
structure Sound (b : Balancer) : Prop where
  known : ∀ e ∈ b.ready, e < b.selector.endpoints.length
  bound : ∀ e ∈ b.ready, b.poolOf e < b.pools.length
  addresses : (b.ready.map fun e => (b.inst e).address).Nodup
  pools : (b.ready.map b.poolOf).Nodup
  balanced : ∀ p ∈ b.pools, p.Balanced 0
  open_iff : ∀ k p, b.pools[k]? = some p → (p.closed = false ↔ k ∈ b.ready.map b.poolOf)
  funded : b.config.maxOpen = 0 → b.pools = []

def IsNew (b : Balancer) (e : Nat) : Prop :=
  b.selector.endpoint e = { inst := b.inst e, pool := b.poolOf e }

/-- Of the instances to claim endpoints for, these have got theirs. -/
structure Claimed (b₀ b : Balancer) (done : List Instance) (es : List Nat) : Prop where
  ready_eq : b.ready = b₀.ready
  config_eq : b.config = b₀.config
  endpoints : b₀.selector.endpoints <+: b.selector.endpoints
  pools : ∃ more, b.pools = b₀.pools ++ more ∧ ∀ p ∈ more, p.closed = false ∧ p.Balanced 0
  insts : es.map b.inst = done
  known : ∀ e ∈ es, e < b.selector.endpoints.length
  kept : ∀ e ∈ es, e ∈ b₀.ready ∨
    b₀.selector.endpoints.length ≤ e ∧ b.IsNew e ∧ ∀ e₀ ∈ b₀.ready, b₀.inst e₀ ≠ b.inst e
  pool : ∀ e ∈ es, (∃ e₀ ∈ b₀.ready, (b₀.inst e₀).address = (b.inst e).address ∧
    b₀.poolOf e₀ = b.poolOf e) ∨
    (∀ e₀ ∈ b₀.ready, (b₀.inst e₀).address ≠ (b.inst e).address) ∧ b₀.pools.length ≤ b.poolOf e
  bound : ∀ e ∈ es, b.poolOf e < b.pools.length
  nodup : (es.map b.poolOf).Nodup
  owned : ∀ k, b₀.pools.length ≤ k → k < b.pools.length → k ∈ es.map b.poolOf

theorem endpoint_of_prefix (h : b.selector.endpoints <+: b'.selector.endpoints)
    (he : e < b.selector.endpoints.length) : b'.selector.endpoint e = b.selector.endpoint e := by
  obtain ⟨more, hmore⟩ := h
  rw [Selector.endpoint, Selector.endpoint, ← hmore, List.getElem?_append_left he]

/-- Before anything is claimed. -/
theorem Claimed.start (b : Balancer) : Claimed b b [] [] where
  ready_eq := rfl
  config_eq := rfl
  endpoints := List.prefix_refl _
  pools := ⟨[], (List.append_nil _).symm, nofun⟩
  insts := rfl
  known := nofun
  kept := nofun
  pool := nofun
  bound := nofun
  nodup := List.nodup_nil
  owned _ hle hlt := absurd hlt (Nat.not_lt.mpr hle)

/-- One more instance gets an endpoint, whose pool none of the others has. -/
theorem Claimed.push (h : Claimed b₀ b done es) (hready : b'.ready = b.ready)
    (hconfig : b'.config = b.config) (hend : b.selector.endpoints <+: b'.selector.endpoints)
    (hpools : ∃ more, b'.pools = b.pools ++ more ∧ ∀ p ∈ more, p.closed = false ∧ p.Balanced 0)
    (hinst : b'.inst e = i) (hknown : e < b'.selector.endpoints.length)
    (hkept : e ∈ b₀.ready ∨
      b₀.selector.endpoints.length ≤ e ∧ b'.IsNew e ∧ ∀ e₀ ∈ b₀.ready, b₀.inst e₀ ≠ b'.inst e)
    (hpool : (∃ e₀ ∈ b₀.ready, (b₀.inst e₀).address = i.address ∧ b₀.poolOf e₀ = b'.poolOf e) ∨
      (∀ e₀ ∈ b₀.ready, (b₀.inst e₀).address ≠ i.address) ∧ b₀.pools.length ≤ b'.poolOf e)
    (hbound : b'.poolOf e < b'.pools.length) (hfresh : b'.poolOf e ∉ es.map b.poolOf)
    (howned : ∀ k, b.pools.length ≤ k → k < b'.pools.length → k = b'.poolOf e) :
    Claimed b₀ b' (done ++ [i]) (es ++ [e]) := by
  -- the endpoints that were claimed before stay as they are
  have hsame (x : Nat) (hx : x ∈ es) : b'.selector.endpoint x = b.selector.endpoint x :=
    endpoint_of_prefix hend (h.known x hx)
  have hinsts (x : Nat) (hx : x ∈ es) : b'.inst x = b.inst x := congrArg Endpoint.inst (hsame x hx)
  have hpoolOf (x : Nat) (hx : x ∈ es) : b'.poolOf x = b.poolOf x :=
    congrArg Endpoint.pool (hsame x hx)
  have hmap : es.map b'.poolOf = es.map b.poolOf := List.map_congr_left hpoolOf
  obtain ⟨first, hfirst, hopen⟩ := h.pools
  obtain ⟨second, hsecond, hopen'⟩ := hpools
  have hlength : b.pools.length ≤ b'.pools.length := by
    rw [hsecond, List.length_append]
    exact Nat.le_add_right _ _
  refine ⟨hready.trans h.ready_eq, hconfig.trans h.config_eq, h.endpoints.trans hend,
    ⟨first ++ second, ?_, ?_⟩, ?_, ?_, ?_, ?_, ?_, ?_, ?_⟩
  · rw [hsecond, hfirst, List.append_assoc]
  · intro p hp
    exact (List.mem_append.mp hp).elim (hopen p) (hopen' p)
  · rw [List.map_append, List.map_congr_left hinsts, h.insts, List.map_singleton, hinst]
  · intro x hx
    rcases List.mem_append.mp hx with hx | hx
    · exact Nat.lt_of_lt_of_le (h.known x hx) hend.length_le
    · rwa [List.mem_singleton.mp hx]
  · intro x hx
    rcases List.mem_append.mp hx with hx | hx
    · rw [IsNew, hinsts x hx, hpoolOf x hx, hsame x hx]
      exact h.kept x hx
    · rwa [List.mem_singleton.mp hx]
  · intro x hx
    rcases List.mem_append.mp hx with hx | hx
    · rw [hinsts x hx, hpoolOf x hx]
      exact h.pool x hx
    · rwa [List.mem_singleton.mp hx, hinst]
  · intro x hx
    rcases List.mem_append.mp hx with hx | hx
    · rw [hpoolOf x hx]
      exact Nat.lt_of_lt_of_le (h.bound x hx) hlength
    · rwa [List.mem_singleton.mp hx]
  · rw [List.map_append, hmap, List.map_singleton]
    refine List.nodup_append.mpr ⟨h.nodup, List.nodup_singleton _, ?_⟩
    rintro k hk x hx rfl
    exact hfresh (List.mem_singleton.mp hx ▸ hk)
  · intro k hle hlt
    rw [List.map_append, List.mem_append, hmap, List.map_singleton, List.mem_singleton]
    by_cases hk : k < b.pools.length
    · exact .inl (h.owned k hle hk)
    · exact .inr (howned k (Nat.le_of_not_lt hk) hlt)

/-- A pool of the ready set is free for whoever has the address. -/
theorem Claimed.not_mem (h : Claimed b₀ b done es) (hs : b₀.Sound) (he : e ∈ b₀.ready)
    (hdone : (b₀.inst e).address ∉ done.map Instance.address) : b₀.poolOf e ∉ es.map b.poolOf := by
  intro hmem
  obtain ⟨x, hx, heq⟩ := List.mem_map.mp hmem
  rcases h.pool x hx with ⟨e₀, he₀, haddress, hpool⟩ | ⟨-, hle⟩
  · obtain rfl := List.inj_on_of_nodup_map hs.pools he₀ he (hpool.trans heq)
    rw [haddress, ← h.insts, List.map_map] at hdone
    exact hdone (List.mem_map.mpr ⟨x, hx, rfl⟩)
  · have hlt := hs.bound e he
    omega

/-- An endpoint that is made for an instance, over a pool of the ready set or over a new one. -/
theorem Claimed.push_new (h : Claimed b₀ b done es) {pools more : List Pool.State}
    (hpools : pools = b.pools ++ more) (hmore : ∀ p ∈ more, p.closed = false ∧ p.Balanced 0)
    (hnone : ∀ e₀ ∈ b₀.ready, b₀.inst e₀ ≠ i)
    (hk : (∃ e₀ ∈ b₀.ready, (b₀.inst e₀).address = i.address ∧ b₀.poolOf e₀ = k) ∨
      (∀ e₀ ∈ b₀.ready, (b₀.inst e₀).address ≠ i.address) ∧ b₀.pools.length ≤ k)
    (hbound : k < pools.length) (hfresh : k ∉ es.map b.poolOf)
    (howned : ∀ j, b.pools.length ≤ j → j < pools.length → j = k) :
    Claimed b₀ (({ b with pools } : Balancer).addEndpoint { inst := i, pool := k }).1 (done ++ [i])
      (es ++ [b.selector.endpoints.length]) := by
  generalize hb' : (({ b with pools } : Balancer).addEndpoint { inst := i, pool := k }).1 = b'
  have hends : b'.selector.endpoints = b.selector.endpoints ++ [{ inst := i, pool := k }] := by
    rw [← hb']
    rfl
  have hnew : b'.selector.endpoint b.selector.endpoints.length = { inst := i, pool := k } := by
    rw [Selector.endpoint, hends, List.getElem?_concat_length]
    rfl
  have hinst : b'.inst b.selector.endpoints.length = i := congrArg Endpoint.inst hnew
  have hpool : b'.poolOf b.selector.endpoints.length = k := congrArg Endpoint.pool hnew
  have hpools' : b'.pools = pools := by
    rw [← hb']
    rfl
  refine h.push (by rw [← hb']; rfl) (by rw [← hb']; rfl) (hends ▸ List.prefix_append _ _)
    ⟨more, hpools'.trans hpools, hmore⟩ hinst ?_ (.inr ⟨h.endpoints.length_le, ?_, ?_⟩) ?_ ?_ ?_ ?_
  · rw [hends, List.length_append]
    exact Nat.lt_succ_self _
  · rw [IsNew, hnew, hinst, hpool]
  · rwa [hinst]
  · rwa [hpool]
  · rwa [hpool, hpools']
  · rwa [hpool]
  · rwa [hpool, hpools']

theorem Claimed.endpoint_eq (h : Claimed b₀ b done es) (hs : b₀.Sound) (he : e ∈ b₀.ready) :
    b.selector.endpoint e = b₀.selector.endpoint e := endpoint_of_prefix h.endpoints (hs.known e he)

theorem Claimed.length_pools_le (h : Claimed b₀ b done es) : b₀.pools.length ≤ b.pools.length := by
  obtain ⟨more, hmore, -⟩ := h.pools
  rw [hmore, List.length_append]
  exact Nat.le_add_right _ _

/-- An instance that is ready keeps its endpoint. -/
theorem Claimed.push_ready (h : Claimed b₀ b done es) (hs : b₀.Sound) (he : e ∈ b₀.ready)
    (hi : (b₀.inst e).address ∉ done.map Instance.address) :
    Claimed b₀ b (done ++ [b₀.inst e]) (es ++ [e]) := by
  have hsame := h.endpoint_eq hs he
  have hpool : b.poolOf e = b₀.poolOf e := congrArg Endpoint.pool hsame
  refine h.push rfl rfl (List.prefix_refl _) ⟨[], (List.append_nil _).symm, nofun⟩
    (congrArg Endpoint.inst hsame) ?_ (.inl he) (.inl ⟨e, he, rfl, hpool.symm⟩) ?_ ?_ ?_
  · exact Nat.lt_of_lt_of_le (hs.known e he) h.endpoints.length_le
  · rw [hpool]
    exact Nat.lt_of_lt_of_le (hs.bound e he) h.length_pools_le
  · rw [hpool]
    exact h.not_mem hs he hi
  · exact fun k hle hlt => absurd hlt (Nat.not_lt.mpr hle)

/-- Another instance at an address that is ready gets an endpoint over the same pool. -/
theorem Claimed.push_over (h : Claimed b₀ b done es) (hs : b₀.Sound) (he : e ∈ b₀.ready)
    (ha : (b₀.inst e).address = i.address) (hne : b₀.inst e ≠ i)
    (hi : i.address ∉ done.map Instance.address) :
    Claimed b₀ (b.addEndpoint { inst := i, pool := b₀.poolOf e }).1 (done ++ [i])
      (es ++ [b.selector.endpoints.length]) := by
  refine h.push_new (List.append_nil _).symm nofun (fun e₀ he₀ heq => ?_) (.inl ⟨e, he, ha, rfl⟩)
    ?_ (h.not_mem hs he (ha ▸ hi)) fun k hle hlt => absurd hlt (Nat.not_lt.mpr hle)
  · -- whoever is ready for the same instance is ready at its address, and that is `e` alone
    have haddress : (b₀.inst e₀).address = (b₀.inst e).address := by rw [heq, ha]
    obtain rfl := List.inj_on_of_nodup_map hs.addresses he₀ he haddress
    exact hne heq
  · exact Nat.lt_of_lt_of_le (hs.bound e he) h.length_pools_le

/-- An instance at an address that is not ready gets an endpoint over a pool of its own. -/
theorem Claimed.push_opened (h : Claimed b₀ b done es)
    (hnone : ∀ e ∈ b₀.ready, (b₀.inst e).address ≠ i.address) {pool : Pool.State}
    (hpool : Pool.State.ofConfig b.config = .ok pool) :
    Claimed b₀ (({ b with pools := b.pools ++ [pool] } : Balancer).addEndpoint
      { inst := i, pool := b.pools.length }).1 (done ++ [i])
      (es ++ [b.selector.endpoints.length]) := by
  refine h.push_new rfl (fun p hp => ?_) (fun e₀ he₀ heq => hnone e₀ he₀ (congrArg _ heq))
    (.inr ⟨hnone, h.length_pools_le⟩) ?_ ?_ ?_
  · obtain rfl := List.mem_singleton.mp hp
    refine ⟨?_, Pool.State.balanced_ofConfig hpool⟩
    unfold Pool.State.ofConfig at hpool
    split at hpool
    · cases hpool
    · cases hpool
      rfl
  · rw [List.length_append]
    exact Nat.lt_succ_self _
  · intro hmem
    obtain ⟨x, hx, hxk⟩ := List.mem_map.mp hmem
    exact absurd (h.bound x hx) (Nat.not_lt.mpr (Nat.le_of_eq hxk.symm))
  · intro k hle hlt
    rw [List.length_append] at hlt
    exact Nat.le_antisymm (Nat.le_of_lt_succ hlt) hle

/-- To claim an endpoint for one more instance, at a new address, keeps what is claimed. -/
theorem Claimed.claim (h : Claimed b₀ b done es) (hs : b₀.Sound)
    (hi : i.address ∉ done.map Instance.address) (hc : b.claim i = .ok (b', e)) :
    Claimed b₀ b' (done ++ [i]) (es ++ [e]) := by
  unfold Balancer.claim at? at hc
  rw [h.ready_eq] at hc
  cases hfind : b₀.ready.find? fun x => (b.selector.endpoint x).inst.address == i.address with
  | some x =>
    -- the address is ready: its endpoint stays if the instance is the same, and its pool stays
    -- anyway
    have hx : x ∈ b₀.ready := List.mem_of_find?_eq_some hfind
    have hsame := h.endpoint_eq hs hx
    have ha : (b₀.inst x).address = i.address := by
      have ha := List.find?_some hfind
      rw [hsame] at ha
      exact eq_of_beq ha
    simp only [hfind, hsame] at hc
    split at hc
    · rename_i heq
      obtain ⟨rfl, rfl⟩ := Prod.mk.inj (Except.ok.inj hc)
      obtain rfl : b₀.inst x = i := eq_of_beq heq
      exact h.push_ready hs hx hi
    · rename_i hne
      obtain ⟨rfl, rfl⟩ := Prod.mk.inj (Except.ok.inj hc)
      exact h.push_over hs hx ha (fun heq => hne (beq_iff_eq.mpr heq)) hi
  | none =>
    have hnone (x : Nat) (hx : x ∈ b₀.ready) : (b₀.inst x).address ≠ i.address := by
      have hne := List.find?_eq_none.mp hfind x hx
      rw [h.endpoint_eq hs hx] at hne
      exact fun ha => hne (beq_iff_eq.mpr ha)
    simp only [hfind] at hc
    obtain ⟨pool, hpool, heq⟩ := bind_eq_ok.mp hc
    obtain ⟨rfl, rfl⟩ := Prod.mk.inj (Except.ok.inj heq)
    exact h.push_opened hnone hpool

/-- So does claiming for several, one after the other. -/
theorem Claimed.claimAll (h : Claimed b₀ b done es) (hs : b₀.Sound) {more : List Nat}
    (hi : ((done ++ rest).map Instance.address).Nodup) (hc : b.claimAll rest = .ok (b', more)) :
    Claimed b₀ b' (done ++ rest) (es ++ more) := by
  induction rest generalizing b done es more with
  | nil =>
    cases hc
    rw [List.append_nil, List.append_nil]
    exact h
  | cons i rest ih =>
    obtain ⟨⟨c, e⟩, hclaim, hc⟩ := bind_eq_ok.mp hc
    obtain ⟨⟨c', others⟩, hall, hc⟩ := bind_eq_ok.mp hc
    obtain ⟨rfl, rfl⟩ := Prod.mk.inj (Except.ok.inj hc)
    have hnew : i.address ∉ done.map Instance.address := by
      rw [List.map_append, List.nodup_append] at hi
      exact fun hmem => hi.2.2 _ hmem _ List.mem_cons_self rfl
    rw [List.append_cons] at hi ⊢
    rw [List.append_cons es]
    exact ih (h.claim hs hnew hclaim) hi hall


end Balancer
end RemoteCall
