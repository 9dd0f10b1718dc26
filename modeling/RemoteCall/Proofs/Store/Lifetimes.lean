import RemoteCall.Proofs.Store.Leases

/-! How long leases live.

A lease lives for its span from when it was granted or renewed last, and then until the next sweep.
Until it ends, what was put under it is there unless something else was done with the key. -/
namespace RemoteCall.Store
variable {s : Store} {a : Action} {actions before : List Action} {start t : Int}
  {key : String} {e : Entry}
  {lease l : Nat} {span : Duration} {x : Lease}

/-! One action -/

/-- Done now, the action gives the lease this span to live. -/
inductive Gives (s : Store) (lease : Nat) (span : Duration) : Action → Prop
  | grant (h : (s.act (.grant span)).2 = .answer (.ok (some lease))) :
    Gives s lease span (.grant span)
  | keepAlive (x : Lease) (hx : s.lease? lease = some x) (hspan : x.span = span)
    (h : s.Succeeds (.keepAlive lease)) : Gives s lease span (.keepAlive lease)

inductive Closes (s : Store) (lease : Nat) : Action → Prop
  | revoke (h : s.Succeeds (.revoke lease)) : Closes s lease (.revoke lease)
  | expire (first : List Nat) (hb : s.broken = false) (h : s.IsExpired lease) :
    Closes s lease (.sweep first)

theorem lease?_eq_none (h : s.Sound) (hl : s.granted < l) : s.lease? l = none := by
  apply Option.isNone_iff_eq_none.mp
  rw [Option.isNone_iff_eq_none, ← Option.not_isSome_iff_eq_none, isSome_lease?]
  intro hmem
  obtain ⟨y, hy, rfl⟩ := List.mem_map.mp hmem
  exact absurd (h.granted y hy) (Nat.not_le_of_lt hl)

/-- A lease that is renewed is found under its number, and every other one as before. -/
theorem lookup_renewed (leases : List (Nat × Lease)) (y : Lease) :
    (leases.map fun e => if e.1 == lease then (lease, y) else e).lookup l =
      if l = lease then (leases.lookup l).map fun _ => y else leases.lookup l := by
  induction leases with
  | nil => simp
  | cons a rest ih =>
    obtain ⟨n, z⟩ := a
    rw [List.map_cons]
    by_cases hn : n = lease
    · rw [if_pos (beq_iff_eq.mpr hn), List.lookup_cons, List.lookup_cons, ih, hn]
      by_cases hl : l = lease
      · simp [hl]
      · simp [beq_eq_false_iff_ne.mpr hl, hl]
    · rw [if_neg (by simpa using hn), List.lookup_cons, List.lookup_cons, ih]
      by_cases hl : l = n
      · simp [hl, hn]
      · simp [beq_eq_false_iff_ne.mpr hl]

/-- What fails leaves the leases alone. -/
theorem leases_of_not_succeeds (h : ¬ s.Succeeds a) : (s.step a).leases = s.leases := by
  have ha := acting s a
  have hsucceeds : s.Succeeds a ↔ ∃ l, (s.act a).2 = .answer (.ok l) := Iff.rfl
  generalize s.step a = u at ha ⊢
  generalize (s.act a).2 = o at ha hsucceeds
  cases ha with
  | refuses => rfl
  | breaks => rfl
  | grants => exact absurd (hsucceeds.mpr ⟨_, rfl⟩) h
  | _ => exact absurd (hsucceeds.mpr ⟨none, rfl⟩) h

/-- A lease is granted until its span is over, or nothing becomes of the request. -/
theorem grant_cases (s : Store) (span : Duration) :
    ¬ s.Succeeds (.grant span) ∨ s.act (.grant span) = ({ s with
      granted := s.granted + 1
      leases := s.leases ++ [(s.granted + 1, ⟨span, s.now + span.nanos⟩)] },
      .answer (.ok (some (s.granted + 1)))) := by
  rw [Succeeds, act, grant]
  split
  · exact .inl (not_exists.mpr fun _ h => by cases h)
  split
  · exact .inl (not_exists.mpr fun _ h => by cases h)
  dsimp only
  split
  · rename_i expires hlater
    rw [Clock.eq_of_later? hlater]
    exact .inr rfl
  · exact .inl (not_exists.mpr fun _ h => by cases h)

/-- A lease that is alive is renewed until its span is over once more, or nothing becomes of the
request. -/
theorem keepAlive_cases (s : Store) (lease : Nat) :
    ¬ s.Succeeds (.keepAlive lease) ∨ ∃ y, s.lease? lease = some y ∧
    s.act (.keepAlive lease) = ({ s with
      leases := s.leases.map fun e =>
        if e.1 == lease then (lease, { y with expires := s.now + y.span.nanos }) else e },
      .answer (.ok none)) := by
  rw [Succeeds, act, keepAlive]
  split
  · exact .inl (not_exists.mpr fun _ h => by cases h)
  split
  · exact .inl (not_exists.mpr fun _ h => by cases h)
  rename_i y hy
  split
  · rename_i expires hlater
    rw [Clock.eq_of_later? hlater]
    exact .inr ⟨y, hy, rfl⟩
  · exact .inl (not_exists.mpr fun _ h => by cases h)

theorem Gives.succeeds (h : s.Gives lease span a) : s.Succeeds a := by
  cases h with
  | grant h => exact ⟨_, h⟩
  | keepAlive _ _ _ h => exact h

/-- After the action the lease is this one: it was given its span just now, or it was this one
before and is not over. -/
def Lasts (s : Store) (l : Nat) (x : Lease) (a : Action) : Prop :=
  (s.Gives l x.span a ∧ x.expires = s.now + x.span.nanos) ∨
    s.lease? l = some x ∧ (∀ d, ¬ s.Gives l d a) ∧ ¬ s.Closes l a

theorem lasts_iff_of_not_gives (hgives : ∀ d, ¬ s.Gives l d a) :
    s.Lasts l x a ↔ s.lease? l = some x ∧ ¬ s.Closes l a := by
  constructor
  · intro hlasts
    obtain ⟨hx, -, hcloses⟩ := hlasts.resolve_left fun hg => hgives _ hg.1
    exact ⟨hx, hcloses⟩
  · rintro ⟨hx, hcloses⟩
    exact .inr ⟨hx, hgives, hcloses⟩

/-- What leaves the leases alone neither gives nor closes one. -/
theorem lease?_of_kept (hsame : (s.step a).leases = s.leases) (hgives : ∀ d, ¬ s.Gives l d a)
    (hcloses : ¬ s.Closes l a) : (s.step a).lease? l = some x ↔ s.Lasts l x a := by
  rw [lease?, hsame, lasts_iff_of_not_gives hgives]
  exact (and_iff_left hcloses).symm

theorem lease?_of_fails (hfail : ¬ s.Succeeds a) (hcloses : ¬ s.Closes l a) :
    (s.step a).lease? l = some x ↔ s.Lasts l x a :=
  lease?_of_kept (leases_of_not_succeeds hfail) (fun _ hg => hfail hg.succeeds) hcloses

/-- What frees leases frees just those that it closes. -/
theorem lease?_of_frees {gone : Nat → Prop} (hfrees : s.Frees (s.step a) gone)
    (hgives : ∀ d, ¬ s.Gives l d a) (hcloses : s.Closes l a ↔ gone l) :
    (s.step a).lease? l = some x ↔ s.Lasts l x a := by
  rw [hfrees.leases, lasts_iff_of_not_gives hgives, hcloses]

/-- The action gives nobody but these a span, and to these from now on. -/
theorem lease?_of_gives (lease : Nat) (given : Lease)
    (hgiven : given.expires = s.now + given.span.nanos)
    (hgives : ∀ {n d}, s.Gives n d a ↔ n = lease ∧ d = given.span) (hcloses : ∀ n, ¬ s.Closes n a)
    (hnew : (s.step a).lease? lease = some given)
    (hold : l ≠ lease → (s.step a).lease? l = s.lease? l) :
    (s.step a).lease? l = some x ↔ s.Lasts l x a := by
  by_cases hl : l = lease
  · rw [hl, hnew]
    constructor
    · intro hx
      cases hx
      exact .inl ⟨hgives.mpr ⟨rfl, rfl⟩, hgiven⟩
    · rintro (⟨hg, hx⟩ | ⟨-, hnot, -⟩)
      · obtain ⟨xspan, xexpires⟩ := x
        obtain ⟨gspan, gexpires⟩ := given
        obtain ⟨-, rfl⟩ := hgives.mp hg
        exact congrArg some (congrArg _ (hgiven.trans hx.symm))
      · exact absurd (hgives.mpr ⟨rfl, rfl⟩) (hnot _)
  · have hnot : ∀ d, ¬ s.Gives l d a := fun _ hg => hl (hgives.mp hg).1
    rw [hold hl, lasts_iff_of_not_gives hnot]
    exact (and_iff_left (hcloses l)).symm

/-- A grant gives its span to a new lease, and leaves the others. -/
theorem lease?_grant (h : s.Sound) : (s.step (.grant span)).lease? l = some x ↔
    s.Lasts l x (.grant span) := by
  have hcloses (n : Nat) : ¬ s.Closes n (.grant span) := fun hc => by cases hc
  rcases grant_cases s span with hfail | hact
  · exact lease?_of_fails hfail (hcloses l)
  -- the new number is not in use
  have hnone : s.leases.lookup (s.granted + 1) = none := lease?_eq_none h (Nat.lt_succ_self _)
  refine lease?_of_gives (s.granted + 1) ⟨span, s.now + span.nanos⟩ rfl ?_ hcloses ?_ fun hl => ?_
  · intro n d
    constructor
    · intro hg
      cases hg with
      | grant h =>
        rw [hact] at h
        cases h
        exact ⟨rfl, rfl⟩
    · rintro ⟨rfl, rfl⟩
      exact .grant (by rw [hact])
  · rw [step, hact]
    change (s.leases ++ _).lookup _ = _
    rw [List.lookup_append, hnone, Option.none_or, List.lookup_cons_self]
  · rw [step, hact]
    change (s.leases ++ _).lookup l = s.leases.lookup l
    rw [List.lookup_append, List.lookup_cons, beq_eq_false_iff_ne.mpr hl]
    exact Option.or_none

/-- A renewal gives a lease its span once more, and leaves the others. -/
theorem lease?_keepAlive :
    (s.step (.keepAlive lease)).lease? l = some x ↔ s.Lasts l x (.keepAlive lease) := by
  have hcloses (n : Nat) : ¬ s.Closes n (.keepAlive lease) := fun hc => by cases hc
  rcases keepAlive_cases s lease with hfail | ⟨y, hy, hact⟩
  · exact lease?_of_fails hfail (hcloses l)
  have hy' : s.leases.lookup lease = some y := hy
  refine lease?_of_gives lease { y with expires := s.now + y.span.nanos } rfl ?_
    hcloses ?_ fun hl => ?_
  · intro n d
    constructor
    · intro hg
      cases hg with
      | keepAlive z hz hspan _ =>
        rw [hy] at hz
        cases hz
        exact ⟨rfl, hspan.symm⟩
    · rintro ⟨rfl, rfl⟩
      exact .keepAlive y hy rfl ⟨none, by rw [hact]⟩
  · rw [step, hact]
    change (s.leases.map _).lookup lease = _
    rw [lookup_renewed, if_pos rfl, hy', Option.map_some]
  · rw [step, hact]
    change (s.leases.map _).lookup l = s.leases.lookup l
    rw [lookup_renewed, if_neg hl]

/-- Revoking closes one lease. -/
theorem lease?_revoke : (s.step (.revoke lease)).lease? l = some x ↔
    s.Lasts l x (.revoke lease) := by
  by_cases hs : s.Succeeds (.revoke lease)
  · refine lease?_of_frees (frees_of_revoke hs) (fun _ hg => by cases hg)
      ⟨fun hc => ?_, fun hl => ?_⟩
    · cases hc
      rfl
    · subst hl
      exact .revoke hs
  · refine lease?_of_fails hs fun hc => ?_
    cases hc with
    | revoke h => exact hs h

/-- A sweep closes those whose time has come. -/
theorem lease?_sweep {first : List Nat} (h : s.Sound) :
    (s.step (.sweep first)).lease? l = some x ↔ s.Lasts l x (.sweep first) := by
  by_cases hb : s.broken = true
  · have hsame : s.step (.sweep first) = s := if_pos hb
    refine lease?_of_kept (congrArg leases hsame) (fun _ hg => by cases hg) fun hc => ?_
    cases hc with
    | expire _ hb' _ => exact absurd hb (ne_true_of_eq_false hb')
  · have hb : s.broken = false := eq_false_of_ne_true hb
    refine lease?_of_frees (frees_of_sweep h hb) (fun _ hg => by cases hg)
      ⟨fun hc => ?_, .expire first hb⟩
    cases hc with
    | expire _ _ hexpired => exact hexpired

theorem leases_put (s : Store) (key value : String) (lease : Option Nat) :
    (s.step (.put key value lease)).leases = s.leases := by
  change (s.put key value lease).1.leases = s.leases
  unfold put
  split
  · rfl
  · split
    · rfl
    · rfl

theorem leases_delete (s : Store) (key : String) : (s.step (.delete key)).leases = s.leases := by
  change (s.delete key).1.leases = s.leases
  unfold delete
  split
  · rfl
  · dsimp only
    split
    · rfl
    · rfl

/-- What an action does to a lease. -/
theorem lease?_step (h : s.Sound) : (s.step a).lease? l = some x ↔ s.Lasts l x a := by
  cases a with
  | pass span => exact lease?_of_kept rfl (fun _ hg => by cases hg) fun hc => by cases hc
  | grant span => exact lease?_grant h
  | keepAlive lease => exact lease?_keepAlive
  | revoke lease => exact lease?_revoke
  | put key value lease =>
    exact lease?_of_kept (leases_put s key value lease) (fun _ hg => by cases hg)
      fun hc => by cases hc
  | delete key =>
    exact lease?_of_kept (leases_delete s key) (fun _ hg => by cases hg) fun hc => by cases hc
  | sweep first => exact lease?_sweep h

/-- A lease stays alive until it is closed. -/
theorem isSome_step (h : s.Sound) (halive : (s.lease? l).isSome = true) (hc : ¬ s.Closes l a) :
    ((s.step a).lease? l).isSome = true := by
  obtain ⟨y, hy⟩ := Option.isSome_iff_exists.mp halive
  by_cases hg : ∃ d, s.Gives l d a
  · obtain ⟨d, hg⟩ := hg
    exact Option.isSome_iff_exists.mpr ⟨⟨d, s.now + d.nanos⟩, (lease?_step h).mpr (.inl ⟨hg, rfl⟩)⟩
  · exact Option.isSome_iff_exists.mpr ⟨y, (lease?_step h).mpr (.inr ⟨hy, not_exists.mp hg, hc⟩)⟩

/-- Only the passing of time moves the clock. -/
theorem now_step (h : ∀ span, a ≠ .pass span) : (s.step a).now = s.now := by
  have ha := acting s a
  generalize s.step a = u at ha ⊢
  generalize (s.act a).2 = o at ha
  cases ha with
  | passes span => exact absurd rfl (h span)
  | revokes _ _ _ _ hfrees => exact hfrees.rest.1
  | sweeps _ _ _ hfrees => exact hfrees.rest.1
  | _ => rfl

theorem now_le_step : s.now ≤ (s.step a).now := by
  by_cases h : ∀ span, a ≠ .pass span
  · exact Int.le_of_eq (now_step h).symm
  · obtain ⟨span, hspan⟩ := not_forall_not.mp h
    subst hspan
    exact Int.le_add_of_nonneg_right (Int.natCast_nonneg span)

/-- A lease that is alive is renewed, unless the store breaks over it. -/
theorem gives_keepAlive (hb : (s.step (.keepAlive l)).broken = false) (hx : s.lease? l = some x) :
    s.Gives l x.span (.keepAlive l) := by
  refine .keepAlive x hx rfl ?_
  rw [step, act, keepAlive] at hb
  rw [Succeeds, act, keepAlive]
  split at hb
  · rename_i hbroken
    exact absurd hbroken (ne_true_of_eq_false hb)
  · rename_i hbroken
    rw [if_neg hbroken]
    simp only [hx] at hb ⊢
    split at hb
    · exact ⟨none, rfl⟩
    · cases hb

theorem Gives.span_pos (h : s.Gives l span a) (hpos : ∀ y, s.lease? l = some y → 0 < y.span.nanos) :
    0 < span.nanos := by
  cases h with
  | grant h =>
    apply Nat.pos_of_ne_zero
    intro hzero
    rw [act, Store.grant, if_pos (by simpa [Duration.isZero] using hzero)] at h
    cases h
  | keepAlive y hy hspan _ => exact hspan ▸ hpos y hy

/-- The lease is not there, and no key is attached to it. -/
structure Gone (s : Store) (l : Nat) : Prop where
  lease : s.lease? l = none
  key : ∀ key e, s.entries.get? key = some e → e.lease ≠ some l

theorem Sound.gone (h : s.Sound) (hx : s.lease? l = none) : s.Gone l where
  lease := hx
  key key e he hl := by
    have halive := h.alive key e l he hl
    rw [hx] at halive
    cases halive

/-! Whole runs -/

/-- In the run the lease was granted or renewed last at this time, for this span, and not revoked
since. -/
inductive LastGiven (start : Int) : List Action → Nat → Int → Duration → Prop
  | given {before : List Action} {lease : Nat} {span : Duration} (a : Action)
    (h : ((new start).run before).Gives lease span a) :
    LastGiven start (before ++ [a]) lease ((new start).run before).now span
  | since {actions : List Action} {lease : Nat} {t : Int} {span : Duration} (a : Action)
    (h : LastGiven start actions lease t span)
    (hgives : ∀ d, ¬ ((new start).run actions).Gives lease d a)
    (hrevoke : ¬ (a = .revoke lease ∧ ((new start).run actions).Succeeds a)) :
    LastGiven start (actions ++ [a]) lease t span

inductive Replaces (s : Store) (key : String) : Action → Prop
  | put (value : String) (lease : Option Nat) (h : s.Succeeds (.put key value lease)) :
    Replaces s key (.put key value lease)
  | delete (h : s.Succeeds (.delete key)) : Replaces s key (.delete key)

/-- In the run the key was put with this value and attached to this lease or to none, and nothing
was put under it and it was not deleted since. -/
inductive LastPut (start : Int) : List Action → String → Entry → Prop
  | put {before : List Action} {key : String} {e : Entry}
    (h : ((new start).run before).Succeeds (.put key e.value e.lease)) :
    LastPut start (before ++ [.put key e.value e.lease]) key e
  | since {actions : List Action} {key : String} {e : Entry} (a : Action)
    (h : LastPut start actions key e)
    (ha : ¬ ((new start).run actions).Replaces key a) : LastPut start (actions ++ [a]) key e

/-- A lease ends a span after it was granted or renewed last. -/
theorem LastGiven.lease_eq (h : LastGiven start actions l t span)
    (hx : ((new start).run actions).lease? l = some x) : x = ⟨span, t + span.nanos⟩ := by
  induction h generalizing x with
  | @given before lease span a h =>
    rw [run_concat, lease?_step (sound_run sound_new before)] at hx
    rcases hx with ⟨hg, hexpires⟩ | ⟨-, hnot, -⟩
    · obtain ⟨xspan, xexpires⟩ := x
      have hspan : xspan = span := by
        cases h with
        | grant h =>
          cases hg
          rfl
        | keepAlive y hy hspan _ =>
          cases hg with
          | keepAlive z hz hspan' _ =>
            rw [hy] at hz
            cases hz
            exact hspan'.symm.trans hspan
      cases hspan
      exact congrArg _ hexpires
    · exact absurd h (hnot span)
  | since a h hgives hrevoke ih =>
    rw [run_concat, lease?_step (sound_run sound_new _)] at hx
    rcases hx with ⟨hg, -⟩ | ⟨hx, -⟩
    · exact absurd hg (hgives _)
    · exact ih hx

/-- Until then it is alive. -/
theorem LastGiven.alive (h : LastGiven start actions l t span)
    (hlt : ((new start).run actions).now < t + span.nanos) :
    ((new start).run actions).lease? l = some ⟨span, t + span.nanos⟩ := by
  induction h with
  | @given before lease span a h =>
    rw [run_concat, lease?_step (sound_run sound_new before)]
    exact .inl ⟨h, rfl⟩
  | since a h hgives hrevoke ih =>
    rw [run_concat] at hlt ⊢
    have hx := ih (Int.lt_of_le_of_lt now_le_step hlt)
    rw [lease?_step (sound_run sound_new _)]
    refine .inr ⟨hx, hgives, fun hc => ?_⟩
    cases hc with
    | revoke hs => exact hrevoke ⟨rfl, hs⟩
    | expire first hb hexpired =>
      obtain ⟨y, hy, hle⟩ := hexpired
      rw [hx] at hy
      cases hy
      exact absurd (Int.lt_of_le_of_lt now_le_step hlt) (Int.not_lt.mpr hle)

theorem LastGiven.le_granted (h : LastGiven start actions l t span) :
    l ≤ ((new start).run actions).granted := by
  induction h with
  | @given before lease span a h =>
    have hsound : ((new start).run (before ++ [a])).Sound := sound_run sound_new _
    have hx : ((new start).run (before ++ [a])).lease? lease =
        some ⟨span, ((new start).run before).now + span.nanos⟩ := by
      rw [run_concat, lease?_step (sound_run sound_new before)]
      exact .inl ⟨h, rfl⟩
    obtain ⟨y, hy, rfl⟩ := List.mem_map.mp (isSome_lease?.mp (Option.isSome_iff_exists.mpr ⟨_, hx⟩))
    exact hsound.granted y hy
  | since a h hgives hrevoke ih =>
    rw [run_concat]
    exact Nat.le_trans ih (granted_acting (acting _ a)).1

theorem LastPut.le_granted (h : LastPut start actions key e) (hl : e.lease = some l) :
    l ≤ ((new start).run actions).granted := by
  induction h with
  | @put before key e h =>
    have hsound : ((new start).run (before ++ [.put key e.value e.lease])).Sound :=
      sound_run sound_new _
    have he : ((new start).run (before ++ [.put key e.value e.lease])).entries.get? key =
        some e := by
      rw [run_concat, get?_step (sound_run sound_new before)]
      exact .inl ⟨rfl, h⟩
    obtain ⟨y, hy, rfl⟩ := List.mem_map.mp (isSome_lease?.mp (hsound.alive key e l he hl))
    exact hsound.granted y hy
  | since a h ha ih =>
    rw [run_concat]
    exact Nat.le_trans (ih hl) (granted_acting (acting _ a)).1

/-- What was put last under a lease that is alive is there. -/
theorem LastPut.get?_eq (h : LastPut start actions key e) (hl : e.lease = some l)
    (halive : (((new start).run actions).lease? l).isSome = true) :
    ((new start).run actions).entries.get? key = some e := by
  -- on the run, from its end: a lease that is alive was alive all the time
  induction h with
  | @put before key e h =>
    rw [run_concat, get?_step (sound_run sound_new before)]
    exact .inl ⟨rfl, h⟩
  | since a h ha ih =>
    rw [run_concat] at halive ⊢
    have he := ih hl (alive_acting (acting _ a) (h.le_granted hl) halive)
    rw [get?_step (sound_run sound_new _)]
    refine .inr ⟨he, fun hends => ha ?_⟩
    rw [hl] at hends
    have hs := hends.succeeds
    rcases hends.of_alive (sound_run sound_new _) halive with ⟨value, other, rfl⟩ | rfl
    · exact .put value other hs
    · exact .delete hs

/-- A lease that has ended never comes back. -/
theorem lease?_run_eq_none (hl : l ≤ s.granted) (hx : s.lease? l = none) (actions : List Action) :
    (s.run actions).lease? l = none := by
  induction actions generalizing s with
  | nil => exact hx
  | cons a rest ih =>
    refine ih (Nat.le_trans hl (granted_acting (acting s a)).1) ?_
    by_contra hne
    have halive := alive_acting (acting s a) hl (Option.isSome_iff_ne_none.mpr hne)
    rw [hx] at halive
    cases halive

/-! Clocks -/

theorem broken_of_answer {u : Store} {r : Result (Option Nat)} (h : s.Acting a u (.answer r)) :
    u.broken = s.broken := by
  cases h with
  | revokes _ _ _ _ hfrees => exact hfrees.rest.2.2
  | sweeps _ _ _ hfrees => exact hfrees.rest.2.2
  | _ => rfl

/-- A store breaks only over a lease whose end no clock can hold. -/
theorem broken_step (hb : s.broken = false) (hb' : (s.step a).broken = true) : ∃ span : Duration,
    (a = .grant span ∨ ∃ l x, a = .keepAlive l ∧ s.lease? l = some x ∧ x.span = span) ∧
      ¬ Clock.Representable (s.now + span.nanos) := by
  have hnot {r : Result (Option Nat)} (hr : (s.act a).2 = .answer r) : False := by
    have hsame := broken_of_answer (hr ▸ acting s a)
    rw [hb', hb] at hsame
    cases hsame
  have hlater {n : Nat} (hnone : Clock.later? s.now n = none) :
      ¬ Clock.Representable (s.now + n) := by
    intro hr
    rw [Clock.later?, if_pos hr] at hnone
    cases hnone
  cases a with
  | grant span =>
    refine ⟨span, .inl rfl, ?_⟩
    simp only [act, grant] at hnot
    split at hnot
    · exact (hnot rfl).elim
    · rw [if_neg (ne_true_of_eq_false hb)] at hnot
      split at hnot
      · exact (hnot rfl).elim
      · rename_i hnone
        exact hlater hnone
  | keepAlive lease =>
    simp only [act, keepAlive, if_neg (ne_true_of_eq_false hb)] at hnot
    split at hnot
    · exact (hnot rfl).elim
    · rename_i x hx
      refine ⟨x.span, .inr ⟨lease, x, rfl, hx, rfl⟩, ?_⟩
      split at hnot
      · exact (hnot rfl).elim
      · rename_i hnone
        exact hlater hnone
  | _ => exact (hnot rfl).elim

/-- The span of a lease is one that was granted. -/
theorem grant_mem (hx : ((new start).run actions).lease? l = some x) : .grant x.span ∈ actions := by
  induction actions using List.reverseRecOn generalizing x with
  | nil => cases hx
  | append_singleton before a ih =>
    rw [run_concat, lease?_step (sound_run sound_new before)] at hx
    rw [List.mem_append, List.mem_singleton]
    rcases hx with ⟨hg, -⟩ | ⟨hx, -⟩
    · cases hg with
      | grant h => exact .inr rfl
      | keepAlive y hy hspan _ => exact .inl (hspan ▸ ih hy)
    · exact .inl (ih hx)

theorem start_le_now : start ≤ ((new start).run actions).now := by
  induction actions using List.reverseRecOn with
  | nil => exact Int.le_refl _
  | append_singleton before a ih =>
    rw [run_concat]
    exact Int.le_trans ih now_le_step

/-- As long as clocks can hold when the leases end that are granted, the store does not break. -/
theorem broken_run (hstart : -Clock.limit ≤ start)
    (h : ∀ span, .grant span ∈ actions → ((new start).run actions).now + span.nanos < Clock.limit) :
    ((new start).run actions).broken = false := by
  -- from the end of the run: what is granted last must end in time, and so must what is renewed
  induction actions using List.reverseRecOn with
  | nil => rfl
  | append_singleton before a ih =>
    rw [run_concat] at h ⊢
    have hle : ((new start).run before).now ≤ (((new start).run before).step a).now := now_le_step
    have hlimit {span : Duration} (hspan : .grant span ∈ before ++ [a]) :
        ((new start).run before).now + span.nanos < Clock.limit :=
      Int.lt_of_le_of_lt (Int.add_le_add_right hle _) (h span hspan)
    have hb := ih fun span hspan => hlimit (List.mem_append_left _ hspan)
    by_contra hb'
    obtain ⟨span, hcase, hnot⟩ := broken_step hb (by simpa using hb')
    have hspan : .grant span ∈ before ++ [a] := by
      rcases hcase with rfl | ⟨l, x, rfl, hx, rfl⟩
      · exact List.mem_append_right _ List.mem_cons_self
      · exact List.mem_append_left _ (grant_mem hx)
    refine hnot ⟨?_, hlimit hspan⟩
    have hnow : start ≤ ((new start).run before).now := start_le_now
    omega

end RemoteCall.Store
