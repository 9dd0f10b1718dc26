import RemoteCall.Proofs.Balancer.Updates

/-! What lasts at a balancer, whatever it is told, and whether or not it was closed.

Pools never go away, so each pool goes on by steps of its own through updates, calls and closing.
That every ready endpoint has a pool does not depend on which pools are open, unlike all that is
known of a balancer in use. -/
namespace RemoteCall.Balancer
open Selection (Selector Endpoint Picker)
variable {b b' b'' : Balancer} {instances : List Instance} {i : Instance} {e k : Nat}
  {es : List Nat} {x : Endpoint}

/-- No pool goes away. -/
def GoesOn (b b' : Balancer) : Prop :=
  ∀ (k : Nat) (p : Pool.State), b.pools[k]? = some p → ∃ steps, b'.pools[k]? = some (p.run steps)

theorem goesOn_of_more (h : b.pools <+: b'.pools) : b.GoesOn b' := by
  intro k p hp
  obtain ⟨more, hmore⟩ := h
  exact ⟨[], hmore ▸ List.getElem?_append_left (List.getElem?_eq_some_iff.mp hp).1 ▸ hp⟩

theorem GoesOn.refl (b : Balancer) : b.GoesOn b := goesOn_of_more (List.prefix_refl _)

theorem GoesOn.trans (h : b.GoesOn b') (h' : b'.GoesOn b'') : b.GoesOn b'' := by
  intro k p hp
  obtain ⟨first, hfirst⟩ := h k p hp
  obtain ⟨second, hsecond⟩ := h' k _ hfirst
  refine ⟨first ++ second, ?_⟩
  rw [hsecond, Pool.State.run, Pool.State.run, Pool.State.run, List.foldl_append]

/-- A pool that is closed stays so. -/
theorem GoesOn.closed (h : b.GoesOn b') {p : Pool.State} (hp : b.pools[k]? = some p)
    (hb : p.Balanced 0) (hc : p.closed = true) :
    ∃ p', b'.pools[k]? = some p' ∧ p'.closed = true := by
  obtain ⟨steps, hsteps⟩ := h k p hp
  exact ⟨_, hsteps, (Pool.State.frame_run hb steps).closed hc⟩

/-- Only pools and counts at endpoints have changed. -/
structure Carries (b b' : Balancer) : Prop where
  selector : b.selector.Same b'.selector
  length_eq : b'.pools.length = b.pools.length
  goesOn : b.GoesOn b'

theorem Carries.trans (h : b.Carries b') (h' : b'.Carries b'') : b.Carries b'' :=
  ⟨h.selector.trans h'.selector, h'.length_eq.trans h.length_eq, h.goesOn.trans h'.goesOn⟩

theorem carries_of_pools (hselector : b.selector.Same b'.selector) (hpools : b'.pools = b.pools) :
    b.Carries b' :=
  ⟨hselector, congrArg List.length hpools, goesOn_of_more (hpools ▸ List.prefix_refl _)⟩

theorem Carries.refl (b : Balancer) : b.Carries b := carries_of_pools (.refl _) rfl

theorem Carries.ready_eq (h : b.Carries b') : b'.ready = b.ready := h.selector.ready_eq

theorem Carries.poolOf_eq (h : b.Carries b') : b'.poolOf e = b.poolOf e :=
  (h.selector.endpoint_eq e).2

theorem getElem?_pool {p : Pool.State} (hp : b.pools[k]? = some p) (x : Pool.Step) :
    (b.step (.pool k x)).pools[k]? = some (p.step x) := by
  change (b.pools.modify k fun s => s.step x)[k]? = some (p.step x)
  rw [List.getElem?_modify, hp]
  simp

theorem carries_pool (b : Balancer) (k : Nat) (x : Pool.Step) : b.Carries (b.step (.pool k x)) := by
  refine ⟨.refl _, List.length_modify _ _ _, fun j p hp => ?_⟩
  by_cases h : k = j
  · subst h
    exact ⟨[x], getElem?_pool hp x⟩
  · refine ⟨[], ?_⟩
    change (b.pools.modify k fun s => s.step x)[j]? = some p
    rw [List.getElem?_modify, hp]
    simp [h]

/-- To close an endpoint's pool is a step of that pool. -/
theorem carries_closePools (es : List Nat) : b.Carries (es.foldl closePool b) := by
  induction es generalizing b with
  | nil => exact .refl b
  | cons e es ih => exact (carries_pool b (b.poolOf e) .close).trans ih

theorem carries_pick (b : Balancer) (call : Selection.Call) (now : Int) (draw : Nat) :
    b.Carries (b.step (.pick call now draw)) := by
  rw [step]
  split
  · rename_i s p hp
    exact carries_of_pools (Selector.same_pick hp) rfl
  · exact .refl b

theorem carries_finish (b : Balancer) (pick : Selection.Pick) (failed : Bool) (now : Int) :
    b.Carries (b.step (.finish pick failed now)) :=
  carries_of_pools (Selector.same_finish pick failed now) rfl

/-! Ready endpoints and their pools -/

/-- Every endpoint has a pool whose admissions are accounted for, and the ready endpoints are among
them. -/
structure Intact (b : Balancer) : Prop where
  known : ∀ e ∈ b.ready, e < b.selector.endpoints.length
  bound : ∀ e < b.selector.endpoints.length, b.poolOf e < b.pools.length
  balanced : ∀ p ∈ b.pools, p.Balanced 0

theorem Intact.exists_pool (h : b.Intact) (he : e ∈ b.ready) :
    ∃ p, b.pools[b.poolOf e]? = some p ∧ p.Balanced 0 :=
  have hp := List.getElem?_eq_getElem (h.bound e (h.known e he))
  ⟨_, hp, h.balanced _ (List.mem_of_getElem? hp)⟩

theorem intact_ofMode (mode : SelectMode) (filter : Option Selection.Filter) (config : PoolConfig) :
    (ofMode mode filter config).Intact :=
  have hs := sound_ofMode mode filter config
  ⟨hs.known, nofun, hs.balanced⟩

/-- What changes only pools and counts leaves everything in its place. -/
theorem Carries.intact (h : b.Carries b') (hb : b.Intact) : b'.Intact where
  known := by
    rw [h.ready_eq, h.selector.length_eq]
    exact hb.known
  bound e he := by
    rw [h.poolOf_eq, h.length_eq]
    exact hb.bound e (h.selector.length_eq ▸ he)
  balanced p' hp' := by
    obtain ⟨k, hk⟩ := List.mem_iff_getElem?.mp hp'
    have hlt := (List.getElem?_eq_some_iff.mp hk).1
    rw [h.length_eq] at hlt
    have hp := List.getElem?_eq_getElem hlt
    obtain ⟨steps, hsteps⟩ := h.goesOn k _ hp
    obtain rfl := Option.some.inj (hk.symm.trans hsteps)
    exact Pool.State.balanced_run (hb.balanced _ (List.mem_of_getElem? hp)) steps

/-- Endpoints and pools were added, and the ready set is still to be replaced. -/
structure Extends (b b' : Balancer) : Prop where
  ready_eq : b'.ready = b.ready
  endpoints : b.selector.endpoints <+: b'.selector.endpoints
  pools : b.pools <+: b'.pools

theorem Extends.trans (h : b.Extends b') (h' : b'.Extends b'') : b.Extends b'' :=
  ⟨h'.ready_eq.trans h.ready_eq, h.endpoints.trans h'.endpoints, h.pools.trans h'.pools⟩

theorem Intact.addEndpoint (h : b.Intact) {pools : List Pool.State} (hpools : b.pools <+: pools)
    (hbalanced : ∀ p ∈ pools, p.Balanced 0) (hx : x.pool < pools.length) :
    (({ b with pools } : Balancer).addEndpoint x).1.Intact where
  known e he := by
    have hlt := h.known e he
    change e < (b.selector.endpoints ++ [x]).length
    rw [List.length_append]
    exact Nat.lt_add_right _ hlt
  bound e he := by
    change ((b.selector.endpoints ++ [x])[e]?.getD default).pool < pools.length
    by_cases hlt : e < b.selector.endpoints.length
    · rw [List.getElem?_append_left hlt]
      exact Nat.lt_of_lt_of_le (h.bound e hlt) hpools.length_le
    · change e < (b.selector.endpoints ++ [x]).length at he
      rw [List.length_append, List.length_singleton] at he
      obtain rfl : e = b.selector.endpoints.length := by omega
      rw [List.getElem?_concat_length]
      exact hx
  balanced := hbalanced

/-- An endpoint that is claimed has a pool, and nothing that was there goes away. -/
theorem Intact.claim (h : b.Intact) (hc : b.claim i = .ok (b', e)) :
    b'.Intact ∧ b.Extends b' ∧ e < b'.selector.endpoints.length := by
  have hlast (x : Endpoint) :
      b.selector.endpoints.length < (b.selector.endpoints ++ [x]).length := by
    rw [List.length_append]
    exact Nat.lt_succ_self _
  unfold Balancer.claim at hc
  split at hc
  · rename_i e₀ hat
    have hlt := h.known e₀ (List.mem_of_find?_eq_some hat)
    dsimp only at hc
    split at hc
    · obtain ⟨rfl, rfl⟩ := Prod.mk.inj (Except.ok.inj hc)
      exact ⟨h, ⟨rfl, List.prefix_refl _, List.prefix_refl _⟩, hlt⟩
    · obtain ⟨rfl, rfl⟩ := Prod.mk.inj (Except.ok.inj hc)
      exact ⟨h.addEndpoint (List.prefix_refl _) h.balanced (h.bound e₀ hlt),
        ⟨rfl, List.prefix_append _ _, List.prefix_refl _⟩, hlast _⟩
  · obtain ⟨pool, hpool, hc⟩ := bind_eq_ok.mp hc
    obtain ⟨rfl, rfl⟩ := Prod.mk.inj (Except.ok.inj hc)
    refine ⟨h.addEndpoint (List.prefix_append _ _) (fun p hp => ?_) ?_,
      ⟨rfl, List.prefix_append _ _, List.prefix_append _ _⟩, hlast _⟩
    · rcases List.mem_append.mp hp with hp | hp
      · exact h.balanced p hp
      · exact List.mem_singleton.mp hp ▸ Pool.State.balanced_ofConfig hpool
    · rw [List.length_append]
      exact Nat.lt_succ_self _

theorem Intact.claimAll (h : b.Intact) (hc : b.claimAll instances = .ok (b', es)) :
    b'.Intact ∧ b.Extends b' ∧ ∀ e ∈ es, e < b'.selector.endpoints.length := by
  induction instances generalizing b es with
  | nil =>
    cases hc
    exact ⟨h, ⟨rfl, List.prefix_refl _, List.prefix_refl _⟩, nofun⟩
  | cons i rest ih =>
    obtain ⟨⟨c, e⟩, hclaim, hc⟩ := bind_eq_ok.mp hc
    obtain ⟨⟨c', others⟩, hall, hc⟩ := bind_eq_ok.mp hc
    obtain ⟨rfl, rfl⟩ := Prod.mk.inj (Except.ok.inj hc)
    obtain ⟨hi, hextends, he⟩ := h.claim hclaim
    obtain ⟨hi', hextends', hes⟩ := ih hi hall
    refine ⟨hi', hextends.trans hextends', fun x hx => ?_⟩
    rcases List.mem_cons.mp hx with rfl | hx
    · exact Nat.lt_of_lt_of_le he hextends'.endpoints.length_le
    · exact hes x hx

/-- An update lets no pool go away. -/
theorem Intact.update (h : b.Intact) (hu : b.update instances = .ok b') :
    b'.Intact ∧ b.GoesOn b' := by
  obtain ⟨after, ready, hall, rfl⟩ := update_eq_ok.mp hu
  obtain ⟨hi, hextends, hready⟩ := h.claimAll hall
  have hclosed := carries_closePools (b := after) (b.gone instances)
  have hi' := hclosed.intact hi
  refine ⟨⟨fun e he => ?_, hi'.bound, hi'.balanced⟩,
    (goesOn_of_more hextends.pools).trans hclosed.goesOn⟩
  -- only which endpoints are ready is new, and those were all claimed
  change e ∈ (Selector.rebuild _ ready).ready at he
  rw [Selector.ready, Selector.rebuild, Picker.ready_ofReady] at he
  exact hclosed.selector.length_eq ▸ hready e he

end RemoteCall.Balancer
