import RemoteCall.Connection.Traffic
import RemoteCall.Proofs.Connection.Link
import RemoteCall.Proofs.Pool.Holders

/-! Calls share connections, but never one at the same time: a connection that nobody writes to or
reads from has nothing on its way.

Whoever writes or reads holds the connection in the pool, so that what becomes of a link can be told
by the one call that uses it. -/
namespace RemoteCall

def Stage.connection? : Stage → Option Nat
  | writing c _ | reading c _ => some c
  | asking | ended _ => none

namespace Traffic
variable {s s' : Traffic} {t u c d n : Nat} {r : Request} {rest got frame : ByteArray} {l : Link}
  {x : Exchange} {y : Pool.Step} {h : Handled}

@[simp] theorem get?_put :
    (s.put t x).exchanges.get? u = if u = t then some x else s.exchanges.get? u :=
  Table.get?_set

@[simp] theorem link_setLink : (s.setLink c l).link d = if d = c then l else s.link d := by
  have hl : (s.setLink c l).links.get? d = if d = c then some l else s.links.get? d :=
    Table.get?_set
  rw [link, hl]
  split
  · rfl
  · rfl

/-- How a link looks while a call is in the midst of using it. -/
inductive InUse (l : Link) (t : Nat) : Exchange → Prop
  | writing (r : Request) (c : Nat) (rest : ByteArray) (hw : l.Writing r rest) :
    InUse l t ⟨r, .writing c rest⟩
  | reading (r : Request) (c : Nat) (got : ByteArray) (hr : r.Sendable) (htwo : r.isOneway = false)
    (hg : l.Reading ⟨t, r⟩ got) : InUse l t ⟨r, .reading c got⟩

/-- What is known of links by the calls that use them. -/
structure Sound (s : Traffic) : Prop where
  balanced : s.pool.Balanced 0
  owned : s.pool.Owned
  /-- Whoever uses a connection holds it. -/
  holds : ∀ t x c, s.exchanges.get? t = some x → x.stage.connection? = some c →
    s.pool.phase? t = some (.holding c)
  inUse : ∀ t x c, s.exchanges.get? t = some x → x.stage.connection? = some c → InUse (s.link c) t x
  clean : ∀ c, s.pool.Usable c →
    (∀ t x, s.exchanges.get? t = some x → x.stage.connection? ≠ some c) → (s.link c).Clean .empty

/-- A connection has one user at most. -/
theorem Sound.eq_of_holding (hs : s.Sound) (ht : s.pool.phase? t = some (.holding c))
    (hu : s.pool.phase? u = some (.holding c)) : t = u :=
  hs.owned.eq_of_mem hs.balanced.tickets_nodup ht hu (List.mem_singleton_self c)
    (List.mem_singleton_self c)

/-- The pool may go on with callers that are not in the midst of something. -/
theorem sound_stepPool (hs : s.Sound)
    (hy : ∀ t x c, s.exchanges.get? t = some x → x.stage.connection? = some c →
      y ≠ .release t ∧ y ≠ .abandon t)
    (hd : ∀ t c, y = .dialed t (.ok ()) → s.pool.phase? t = some (.dialing c) →
      (s.link c).Clean .empty) :
    (s.stepPool y).Sound := by
  refine ⟨Pool.State.balanced_step hs.balanced y,
    Pool.State.owned_moved hs.owned (Pool.State.moved_step hs.balanced y), fun t x c hx hc => ?_,
    hs.inUse, fun c hu hn => ?_⟩
  · obtain ⟨hr, ha⟩ := hy t x c hx hc
    exact Pool.State.phase?_step_of_holding hs.balanced (hs.holds t x c hx hc) hr ha
  · rcases Pool.State.usable_step hs.balanced hu with hu | ⟨t, rfl, hp⟩
    · exact hs.clean c hu hn
    · exact hd t c rfl hp

/-- The link of a connection that cannot be used does not matter. -/
theorem sound_setLink (hs : s.Sound) (hc : ¬ s.pool.Usable c) : (s.setLink c l).Sound := by
  refine ⟨hs.balanced, hs.owned, hs.holds, fun t x d hx hd => ?_, fun d hu hn => ?_⟩
  · have hne : d ≠ c := fun he => hc (he ▸ .held t (hs.holds t x d hx hd))
    rw [link_setLink, if_neg hne]
    exact hs.inUse t x d hx hd
  · have hne : d ≠ c := fun he => hc (he ▸ hu)
    rw [link_setLink, if_neg hne]
    exact hs.clean d hu hn

/-- One call goes on over one connection. -/
structure Edits (s s' : Traffic) (t c : Nat) : Prop where
  pool_eq : s'.pool = s.pool
  exchanges_eq : ∀ u, u ≠ t → s'.exchanges.get? u = s.exchanges.get? u
  link_eq : ∀ d, d ≠ c → s'.link d = s.link d

theorem edits_put : Edits s (s.put t x) t c :=
  ⟨rfl, fun u hu => by rw [get?_put, if_neg hu], fun _ _ => rfl⟩

theorem edits_setLink : Edits s ((s.setLink c l).put t x) t c where
  pool_eq := rfl
  exchanges_eq u hu := by
    rw [get?_put, if_neg hu]
    rfl
  link_eq d hd := by
    change (s.setLink c l).link d = s.link d
    rw [link_setLink, if_neg hd]

/-- Other calls have nothing to do with the connection of this one. -/
theorem Edits.other (he : Edits s s' t c) (hs : s.Sound) (hp : s.pool.phase? t = some (.holding c))
    (hut : u ≠ t) (hx : s'.exchanges.get? u = some x) (hc : x.stage.connection? = some d) :
    s.exchanges.get? u = some x ∧ d ≠ c := by
  rw [he.exchanges_eq u hut] at hx
  exact ⟨hx, fun hd => hut (hs.eq_of_holding (hd ▸ hs.holds u x d hx hc) hp)⟩

/-- A connection that nobody uses afterwards, and that is not the one of the call, was not used
before. -/
theorem Edits.not_used (he : Edits s s' t c) (hs : s.Sound)
    (hp : s.pool.phase? t = some (.holding c)) (hd : d ≠ c)
    (hn : ∀ u x, s'.exchanges.get? u = some x → x.stage.connection? ≠ some d) :
    ∀ u x, s.exchanges.get? u = some x → x.stage.connection? ≠ some d := by
  intro u y hy hyd
  by_cases hut : u = t
  · have hq := hs.holds u y d hy hyd
    rw [hut, hp] at hq
    cases hq
    exact hd rfl
  · rw [← he.exchanges_eq u hut] at hy
    exact hn u y hy hyd

/-- The call goes on with its link in order, or leaves it clean. -/
theorem sound_edit (hs : s.Sound) (he : Edits s s' t c) (hp : s.pool.phase? t = some (.holding c))
    (hx : s'.exchanges.get? t = some x)
    (hl : x.stage.connection? = some c ∧ InUse (s'.link c) t x ∨
      x.stage.connection? = none ∧ (s'.link c).Clean .empty) : s'.Sound := by
  refine ⟨he.pool_eq ▸ hs.balanced, he.pool_eq ▸ hs.owned, fun u y d hy hd => ?_,
    fun u y d hy hd => ?_, fun d hu hn => ?_⟩
  · rw [he.pool_eq]
    by_cases hut : u = t
    · subst hut
      obtain rfl := Option.some.inj (hx.symm.trans hy)
      rcases hl with ⟨hc, -⟩ | ⟨hc, -⟩
      · rw [hc] at hd
        cases hd
        exact hp
      · rw [hc] at hd
        cases hd
    · obtain ⟨hy', -⟩ := he.other hs hp hut hy hd
      exact hs.holds u y d hy' hd
  · by_cases hut : u = t
    · subst hut
      obtain rfl := Option.some.inj (hx.symm.trans hy)
      rcases hl with ⟨hc, hl⟩ | ⟨hc, -⟩
      · rw [hc] at hd
        cases hd
        exact hl
      · rw [hc] at hd
        cases hd
    · obtain ⟨hy', hdc⟩ := he.other hs hp hut hy hd
      rw [he.link_eq d hdc]
      exact hs.inUse u y d hy' hd
  -- nobody uses `c` only if the call has left it, and clean
  · by_cases hdc : d = c
    · subst hdc
      rcases hl with ⟨hc, -⟩ | ⟨-, hl⟩
      · exact absurd hc (hn t x hx)
      · exact hl
    · rw [he.link_eq d hdc]
      exact hs.clean d (he.pool_eq ▸ hu) (he.not_used hs hp hdc hn)

/-- The call is over and its connection closed, whatever is on the link. -/
theorem sound_abandon (hs : s.Sound) (he : Edits s s' t c)
    (hp : s.pool.phase? t = some (.holding c))
    (hx : ∀ x, s'.exchanges.get? t = some x → x.stage.connection? = none) :
    (s'.stepPool (.abandon t)).Sound := by
  have hpool : (s'.stepPool (.abandon t)).pool = s.pool.step (.abandon t) := by
    rw [stepPool, he.pool_eq]
  have hother {u : Nat} {y : Exchange} {d : Nat} (hy : s'.exchanges.get? u = some y)
      (hd : y.stage.connection? = some d) : u ≠ t ∧ s.exchanges.get? u = some y ∧ d ≠ c := by
    have hut : u ≠ t := by
      intro hut
      rw [hx y (hut ▸ hy)] at hd
      cases hd
    exact ⟨hut, he.other hs hp hut hy hd⟩
  refine ⟨hpool ▸ Pool.State.balanced_step hs.balanced _,
    hpool ▸ Pool.State.owned_moved hs.owned (Pool.State.moved_step hs.balanced _),
    fun u y d hy hd => ?_, fun u y d hy hd => ?_, fun d hu hn => ?_⟩
  · obtain ⟨hut, hy', -⟩ := hother hy hd
    rw [hpool]
    refine Pool.State.phase?_step_of_holding hs.balanced (hs.holds u y d hy' hd) (by simp)
      fun ha => ?_
    cases ha
    exact hut rfl
  · obtain ⟨-, hy', hdc⟩ := hother hy hd
    change InUse (s'.link d) u y
    rw [he.link_eq d hdc]
    exact hs.inUse u y d hy' hd
  -- `c` is closed, so whatever is on it, nobody can come by it
  · rw [hpool] at hu
    have hdc : d ≠ c := by
      rintro rfl
      exact (Pool.State.abandon_holding hs.balanced hs.owned hp).2 hu
    change (s'.link d).Clean .empty
    rw [he.link_eq d hdc]
    rcases Pool.State.usable_step hs.balanced hu with hu | ⟨v, hv, -⟩
    · exact hs.clean d hu (he.not_used hs hp hdc hn)
    · cases hv

/-- What a peer does keeps a link in order. -/
theorem sound_onLink {f : Link → Link} (hs : s.Sound)
    (hc : ∀ l left, l.Clean left → (f l).Clean left)
    (hw : ∀ l r rest, l.Writing r rest → (f l).Writing r rest)
    (hr : ∀ l (w : Writer) got, w.request.Sendable → l.Reading w got → (f l).Reading w got) :
    (s.onLink c f).Sound := by
  unfold onLink
  split
  · rename_i l hl
    have hlink : s.link c = l := by rw [link, hl]; rfl
    refine ⟨hs.balanced, hs.owned, hs.holds, fun u y d hy hd => ?_, fun d hu hn => ?_⟩
    · have hin := hs.inUse u y d hy hd
      rw [link_setLink]
      split
      · rename_i hdc
        rw [hdc, hlink] at hin
        cases hin with
        | writing r c rest hw' => exact .writing r c rest (hw l r rest hw')
        | reading r c got hsend htwo hg =>
          exact .reading r c got hsend htwo (hr l ⟨u, r⟩ got hsend hg)
      · exact hin
    · have hcl := hs.clean d hu hn
      rw [link_setLink]
      split
      · rename_i hdc
        rw [hdc, hlink] at hcl
        exact hc l .empty hcl
      · exact hcl
  · exact hs

end Traffic
end RemoteCall
