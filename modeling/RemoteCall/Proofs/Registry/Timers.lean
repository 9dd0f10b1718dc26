import RemoteCall.Registry.Timed
import RemoteCall.Proofs.Registry.Listing
import RemoteCall.Proofs.Store.Lifetimes

/-! The timers of a store that registries share.

No timer is ever overdue. So the lease of an open registry, which is renewed three times in its
span, is never there at its end, and of all leases a sweep leaves only those whose end is still to
come. -/
namespace RemoteCall

/-! Renewals -/

/-- The renewals of a lease are in time: at the last one, or before the first one, it was given its
span. -/
structure Renewal.Keeps (x : Renewal) (s : Store) (lease : Nat) : Prop where
  span_le : LeasedRegistry.minSpan.nanos ≤ x.span.nanos
  past : x.due - x.interval.nanos ≤ s.now
  ahead : s.now ≤ x.due
  expires : s.broken = false → ∀ y, s.lease? lease = some y →
    y.span = x.span ∧ x.due - x.interval.nanos + x.span.nanos ≤ y.expires

namespace Renewal
variable {x : Renewal} {s : Store} {lease : Nat} {a : Store.Action}

/-- Renewals are less than a span apart. -/
theorem interval_lt (h : LeasedRegistry.minSpan.nanos ≤ x.span.nanos) :
    x.interval.nanos < x.span.nanos := by
  have hmin : LeasedRegistry.minSpan.nanos = 1000000 := rfl
  change x.span.nanos / 3 < x.span.nanos
  omega

/-- Whatever is done with the store, short of passing the next renewal. -/
theorem Keeps.step (h : x.Keeps s lease) (hs : s.Sound) (hl : lease ≤ s.granted)
    (hahead : (s.step a).now ≤ x.due) : x.Keeps (s.step a) lease where
  span_le := h.span_le
  past := Int.le_trans h.past Store.now_le_step
  ahead := hahead
  expires hb' y hy := by
    have hb := Store.broken_acting (Store.acting s a) hb'
    rcases (Store.lease?_step hs).mp hy with ⟨hg, hexpires⟩ | ⟨hy, -⟩
    · cases hg with
      | grant hans =>
        -- a new lease has another number
        have hlt := ((Store.granted_acting (Store.acting s _)).2 lease hans).1
        omega
      | keepAlive z hz hspan _ =>
        have hspan : y.span = x.span := hspan.symm.trans (h.expires hb z hz).1
        have hpast := h.past
        rw [hexpires, hspan]
        exact ⟨rfl, by omega⟩
    · exact h.expires hb y hy

/-- A lease that is renewed in time is kept until the next renewal. -/
theorem Keeps.again (h : x.Keeps s lease) (hs : s.Sound) (hdue : x.due = s.now) :
    x.again.Keeps (s.step (.keepAlive lease)) lease := by
  have hnow : (s.step (.keepAlive lease)).now = s.now := Store.now_step nofun
  have hback : x.again.due - x.again.interval.nanos = s.now := by
    change x.due + x.interval.nanos - x.interval.nanos = s.now
    omega
  refine ⟨h.span_le, ?_, ?_, fun hb y hy => ?_⟩
  · exact Int.le_of_eq (hback.trans hnow.symm)
  · change (s.step (.keepAlive lease)).now ≤ x.due + x.interval.nanos
    omega
  · rw [hback]
    rcases (Store.lease?_step hs).mp hy with ⟨hg, hexpires⟩ | ⟨hy, hnot, -⟩
    · cases hg with
      | keepAlive z hz hspan _ =>
        have hspan : y.span = x.span :=
          hspan.symm.trans (h.expires (Store.broken_acting (Store.acting s _) hb) z hz).1
        rw [hexpires, hspan]
        exact ⟨rfl, Int.le_refl _⟩
    · exact absurd (Store.gives_keepAlive hb hy) (hnot _)

/-- A lease that is renewed in time is never at its end. -/
theorem Keeps.not_isExpired (h : x.Keeps s lease) (hb : s.broken = false) :
    ¬ s.IsExpired lease := by
  rintro ⟨y, hy, hle⟩
  have hexpires := (h.expires hb y hy).2
  have hahead := h.ahead
  have hlt := interval_lt h.span_le
  omega

end Renewal

/-! What becomes of registries -/

namespace SharedStore
variable {s : SharedStore} {a : Action} {r : Nat} {registry : LeasedRegistry} {span : Duration}

/-- A registry is established with a lease that was granted for it, or not at all. -/
theorem establish_cases (s : SharedStore) (span : Duration) :
    (s.establish span).registries = s.registries ∨
    LeasedRegistry.minSpan.nanos ≤ span.nanos ∧
      (s.store.act (.grant span)).2 = .answer (.ok (some (s.store.granted + 1))) ∧
      (s.establish span).registries = s.registries ++ [{ lease := s.store.granted + 1 }] := by
  unfold establish LeasedRegistry.establish
  split
  · rename_i store registry h
    split at h
    · cases h
    · rename_i hmin
      have hgrant := Store.acting_grant (s := s.store) span
      split at h
      · rename_i t lease hg
        cases h
        rw [hg] at hgrant
        cases hgrant with
        | grants =>
          refine .inr ⟨Nat.le_of_not_lt hmin, ?_, rfl⟩
          rw [Store.act, hg]
          rfl
      · cases h
      · cases h
  · exact .inl rfl

/-- A registry that is open was open before, or it has just been established. -/
theorem open_step (hr : (s.step a).registries[r]? = some registry) (ho : registry.closed = false) :
    s.registries[r]? = some registry ∨ ∃ span, a = .establish span ∧ r = s.registries.length ∧
      (s.step a).registries = s.registries ++ [registry] ∧
      LeasedRegistry.minSpan.nanos ≤ span.nanos ∧
      s.store.Gives registry.lease span (.grant span) := by
  -- only to establish adds a registry and only to close changes one, and that one is closed
  cases a with
  | establish span =>
    rcases establish_cases s span with hsame | ⟨hmin, hans, hnew⟩
    · exact .inl (hsame ▸ hr)
    · change (s.establish span).registries[r]? = some registry at hr
      rw [hnew] at hr
      by_cases hlt : r < s.registries.length
      · rw [List.getElem?_append_left hlt] at hr
        exact .inl hr
      · rw [List.getElem?_append_right (Nat.le_of_not_lt hlt), List.getElem?_singleton] at hr
        split at hr
        · rename_i hzero
          cases hr
          exact .inr ⟨span, rfl, by omega, hnew, hmin, .grant hans⟩
        · cases hr
  | register m i =>
    simp only [step, register] at hr
    split at hr
    · exact .inl hr
    · exact .inl hr
  | subscribe m service =>
    simp only [step, subscribe] at hr
    split at hr
    · exact .inl hr
    · exact .inl hr
  | close m =>
    simp only [step, close] at hr
    split at hr
    · rename_i closing hm
      dsimp only at hr
      rw [List.getElem?_set] at hr
      split at hr
      · split at hr
        · cases hr
          cases ho
        · cases hr
      · exact .inl hr
    · exact .inl hr
  | _ => exact .inl hr

theorem length_registries_eq (h : ∀ span, a ≠ .establish span) :
    (s.step a).registries.length = s.registries.length := by
  cases a with
  | establish span => exact absurd rfl (h span)
  | register m i =>
    simp only [step, register]
    split
    · rfl
    · rfl
  | subscribe m service =>
    simp only [step, subscribe]
    split
    · rfl
    · rfl
  | close m =>
    simp only [step, close]
    split
    · exact List.length_set ..
    · rfl
  | _ => rfl

end SharedStore

namespace TimedStore
variable {s : TimedStore} {a : Action} {actions before : List Action} {start : Int} {r l : Nat}
  {registry : LeasedRegistry} {x : Renewal} {span : Duration}

/-! What happens is asked of the store -/

def request? (s : TimedStore) (a : Action) : Option Store.Action :=
  (s.does? a).bind s.shared.request?

theorem store_step : (s.step a).store = (s.request? a).elim s.store s.store.step := by
  unfold step request?
  cases s.does? a with
  | none => rfl
  | some b => exact SharedStore.store_step

def requests (s : TimedStore) : List Action → List Store.Action
  | [] => []
  | a :: rest => (s.request? a).toList ++ (s.step a).requests rest

theorem run_concat : s.run (before ++ [a]) = (s.run before).step a := List.foldl_concat ..

theorem run_append {later : List Action} : s.run (before ++ later) = (s.run before).run later :=
  List.foldl_append

theorem requests_append {later : List Action} :
    s.requests (before ++ later) = s.requests before ++ (s.run before).requests later := by
  induction before generalizing s with
  | nil => rfl
  | cons b rest ih =>
    rw [List.cons_append, requests, ih, requests, List.append_assoc]
    rfl

theorem requests_concat : s.requests (before ++ [a]) = s.requests before ++
    ((s.run before).request? a).toList := by
  rw [requests_append, requests, requests, List.append_nil]

theorem store_run : (s.run actions).store = s.store.run (s.requests actions) := by
  induction actions generalizing s with
  | nil => rfl
  | cons a rest ih =>
    change ((s.step a).run rest).store = s.store.run
      ((s.request? a).toList ++ (s.step a).requests rest)
    rw [ih, store_step]
    cases s.request? a with
    | none => rfl
    | some c => rfl

theorem sound_run : ((new start).run actions).store.Sound := by
  rw [store_run]
  exact Store.sound_run Store.sound_new _

theorem enrolled_run : ((new start).run actions).shared.Enrolled := by
  induction actions using List.reverseRecOn with
  | nil => exact ⟨nofun, List.Pairwise.nil⟩
  | append_singleton before a ih =>
    rw [run_concat]
    unfold step
    cases ((new start).run before).does? a with
    | none => exact ih
    | some b => exact SharedStore.enrolled_step ih

theorem renewal?_eq_some : s.renewal? r = some (registry, x) ↔
    s.shared.registries[r]? = some registry ∧ s.renewals[r]? = some x ∧
    registry.closed = false := by
  unfold renewal?
  constructor
  · intro h
    split at h
    · rename_i registry' x' hr hx
      split at h
      · cases h
      · rename_i ho
        cases h
        exact ⟨hr, hx, eq_false_of_ne_true ho⟩
    · cases h
  · rintro ⟨hr, hx, ho⟩
    rw [hr, hx]
    simp only [ho, Bool.false_eq_true, ↓reduceIte]

/-! What holds at every time -/

/-- No timer is overdue, none is further ahead than its interval, and all leases outlast the last
sweep. -/
structure Punctual (s : TimedStore) : Prop where
  length_eq : s.renewals.length = s.shared.registries.length
  sweep_ahead : s.now ≤ s.sweepDue
  sweep_past : s.sweepDue ≤ s.now + Store.sweepInterval.nanos
  swept : s.store.broken = false → ∀ l y, s.store.lease? l = some y →
    0 < y.span.nanos ∧ s.sweepDue - Store.sweepInterval.nanos < y.expires
  renewed : ∀ r registry x, s.renewal? r = some (registry, x) → x.Keeps s.store registry.lease

theorem isFreeUntil_iff {t : Int} : s.isFreeUntil t = true ↔ t ≤ s.sweepDue ∧
    ∀ r registry x, s.renewal? r = some (registry, x) → t ≤ x.due := by
  rw [isFreeUntil, Bool.and_eq_true, decide_eq_true_eq, List.all_eq_true]
  refine and_congr_right fun _ => ⟨fun h r registry x hr => ?_, fun h r _ => ?_⟩
  · have hlt : r < s.renewals.length :=
      (List.getElem?_eq_some_iff.mp (renewal?_eq_some.mp hr).2.1).1
    have hall := h r (List.mem_range.mpr hlt)
    rw [hr, Option.all_some] at hall
    exact of_decide_eq_true hall
  · cases hr : s.renewal? r with
    | none => rfl
    | some p => exact decide_eq_true (h r p.1 p.2 hr)

/-! One action -/

theorem does?_renew {b : SharedStore.Action} (hb : s.does? (.renew r) = some b) :
    ∃ registry x, s.renewal? r = some (registry, x) ∧ x.due = s.now ∧
    b = .keepAlive registry.lease := by
  simp only [does?] at hb
  split at hb
  · rename_i registry x hr
    split at hb
    · rename_i hdue
      exact ⟨registry, x, hr, hdue, (Option.some.inj hb).symm⟩
    · cases hb
  · cases hb

/-- Apart from renewals, what is done is what the action says. -/
theorem does?_shared {b c : SharedStore.Action} (hb : s.does? (.shared c) = some b) : b = c := by
  unfold does? at hb
  split at hb
  · rename_i heq
    cases heq
  · rename_i heq
    cases heq
    split at hb
    · exact (Option.some.inj hb).symm
    · cases hb
  · rename_i heq
    cases heq
    split at hb
    · exact (Option.some.inj hb).symm
    · cases hb
  · rename_i heq
    cases heq
    exact (Option.some.inj hb).symm

theorem step_of_does? {b : SharedStore.Action} (hb : s.does? a = some b) :
    s.step a =
      { shared := s.shared.step b
        sweepDue := s.sweepDueAfter a
        renewals := s.renewalsAfter (s.shared.step b) a } := by
  rw [step, hb]

theorem step_of_none (hb : s.does? a = none) : s.step a = s := by rw [step, hb]

/-- A registry is established by granting its lease. -/
theorem store_establish (hb : s.does? a = some (.establish span))
    (hmin : LeasedRegistry.minSpan.nanos ≤ span.nanos) :
    (s.step a).store = s.store.step (.grant span) := by
  rw [store_step, request?, hb, Option.bind_some, SharedStore.request?,
    if_neg (Nat.not_lt_of_le hmin)]
  rfl

theorem granted_le_step : s.store.granted ≤ (s.step a).store.granted := by
  rw [store_step]
  cases s.request? a with
  | none => exact Nat.le_refl _
  | some c => exact (Store.granted_acting (Store.acting _ c)).1

/-- What the shared store does of its own accord is done at once, except that time passes. -/
theorem now_shared {b : SharedStore.Action} (h : ∀ span, b ≠ .pass span) :
    (s.shared.step b).store.now = s.now := by
  rw [SharedStore.store_step]
  cases hreq : s.shared.request? b with
  | none => rfl
  | some c =>
    refine Store.now_step fun span hc => ?_
    subst hc
    cases b with
    | pass span => exact h span rfl
    | register r i =>
      simp only [SharedStore.request?] at hreq
      split at hreq
      · cases hreq
      · cases hreq
    | establish span =>
      simp only [SharedStore.request?] at hreq
      split at hreq
      · cases hreq
      · cases hreq
    | close r =>
      simp only [SharedStore.request?, Option.map_eq_some_iff] at hreq
      obtain ⟨registry, -, heq⟩ := hreq
      cases heq
    | _ => cases hreq

/-- Time stands still, or it passes until a time before which no timer is due. -/
theorem now_step : (s.step a).now = s.now ∨ s.now ≤ (s.step a).now ∧ s.isFreeUntil
    (s.step a).now = true := by
  unfold step
  cases hb : s.does? a with
  | none => exact .inl rfl
  | some b =>
    by_cases hpass : ∀ span, b ≠ .pass span
    · exact .inl (now_shared hpass)
    · obtain ⟨span, hspan⟩ := not_forall_not.mp hpass
      subst hspan
      have hfree : s.isFreeUntil (s.now + span) = true := by
        cases a with
        | renew r =>
          obtain ⟨_, _, _, _, heq⟩ := does?_renew hb
          cases heq
        | shared c =>
          obtain rfl := does?_shared hb
          simp only [does?] at hb
          split at hb
          · rename_i hfree
            exact hfree
          · cases hb
      exact .inr ⟨Int.le_add_of_nonneg_right (Int.natCast_nonneg span), hfree⟩

/-- No time passes a sweep that is due. -/
theorem now_le_sweepDue (h : s.Punctual) : (s.step a).now ≤ s.sweepDue := by
  rcases now_step (s := s) (a := a) with hsame | ⟨-, hfree⟩
  · exact hsame ▸ h.sweep_ahead
  · exact (isFreeUntil_iff.mp hfree).1

/-- No time passes a renewal that is due. -/
theorem now_le_due (h : s.Punctual) (hr : s.renewal? r = some (registry, x)) :
    (s.step a).now ≤ x.due := by
  rcases now_step (s := s) (a := a) with hsame | ⟨-, hfree⟩
  · exact hsame ▸ (h.renewed r registry x hr).ahead
  · exact (isFreeUntil_iff.mp hfree).2 r registry x hr

theorem swept_step {t : Store} {c : Store.Action} {d : Int} (hs : t.Sound) (hd : d ≤ t.now)
    (h : ∀ l y, t.lease? l = some y → 0 < y.span.nanos ∧ d < y.expires) :
    ∀ l y, (t.step c).lease? l = some y → 0 < y.span.nanos ∧ d < y.expires := by
  intro l y hy
  rcases (Store.lease?_step hs).mp hy with ⟨hg, hexpires⟩ | ⟨hy, -⟩
  · have hpos := hg.span_pos fun z hz => (h l z hz).1
    exact ⟨hpos, by omega⟩
  · exact h l y hy

/-- The leases that a sweep leaves have their end before them. -/
theorem swept_sweep {t : Store} {d : Int} (hs : t.Sound) (hb : t.broken = false)
    (h : ∀ l y, t.lease? l = some y → 0 < y.span.nanos ∧ d < y.expires) :
    ∀ l y, (t.step (.sweep [])).lease? l = some y → 0 < y.span.nanos ∧ t.now < y.expires := by
  intro l y hy
  rcases (Store.lease?_step hs).mp hy with ⟨hg, -⟩ | ⟨hy, -, hc⟩
  · cases hg
  · refine ⟨(h l y hy).1, Int.lt_of_not_ge fun hle => hc ?_⟩
    exact .expire [] hb ⟨y, hy, hle⟩

/-- The renewals of the registries that were there before. -/
theorem renewalsAfter_cases {shared : SharedStore} (hlt : r < s.renewals.length)
    (hx : (s.renewalsAfter shared a)[r]? = some x) :
    (a = .renew r ∧ ∃ x₀, s.renewals[r]? = some x₀ ∧ x = x₀.again) ∨ s.renewals[r]? = some x := by
  unfold renewalsAfter at hx
  split at hx
  · rename_i m
    rw [List.getElem?_modify] at hx
    obtain ⟨x₀, hx₀, heq⟩ := Option.map_eq_some_iff.mp hx
    split at heq
    · rename_i hm
      subst hm
      exact .inl ⟨rfl, x₀, hx₀, heq.symm⟩
    · subst heq
      exact .inr hx₀
  · split at hx
    · rw [List.getElem?_append_left hlt] at hx
      exact .inr hx
    · exact .inr hx
  · exact .inr hx

theorem keeps_step (hs : s.store.Sound) (hl : l ≤ s.store.granted) (h : x.Keeps s.store l)
    (hahead : (s.step a).now ≤ x.due) : x.Keeps (s.step a).store l := by
  change (s.step a).store.now ≤ x.due at hahead
  rw [store_step] at hahead ⊢
  cases hreq : s.request? a with
  | none => exact h
  | some c =>
    rw [hreq] at hahead
    exact h.step hs hl hahead

/-- A registry that was just established has its span before it. -/
theorem keeps_establish {t : Store} (hs : t.Sound)
    (hmin : LeasedRegistry.minSpan.nanos ≤ span.nanos) (hg : t.Gives l span (.grant span)) :
    Renewal.Keeps ⟨span, t.now⟩ (t.step (.grant span)) l := by
  have hnow : (t.step (.grant span)).now = t.now := Store.now_step nofun
  refine ⟨hmin, ?_, Int.le_of_eq hnow, fun _ y hy => ?_⟩
  · rw [hnow]
    exact Int.sub_le_self _ (Int.natCast_nonneg _)
  · change y.span = span ∧ t.now - (Renewal.interval ⟨span, t.now⟩).nanos + span.nanos ≤ y.expires
    rcases (Store.lease?_step hs).mp hy with ⟨hg', hexpires⟩ | ⟨-, hnot, -⟩
    · have hspan : y.span = span := by
        generalize y.span = d at hg'
        cases hg' with
        | grant => rfl
      rw [hexpires, hspan]
      exact ⟨rfl, by omega⟩
    · exact absurd hg (hnot span)

/-- After every action the leases of open registries are renewed in time. -/
theorem renewed_step (hs : s.store.Sound) (he : s.shared.Enrolled) (h : s.Punctual)
    (hr : (s.step a).renewal? r = some (registry, x)) :
    x.Keeps (s.step a).store registry.lease := by
  cases hb : s.does? a with
  | none =>
    rw [step_of_none hb] at hr ⊢
    exact h.renewed r registry x hr
  | some b =>
    obtain ⟨hreg, hx, ho⟩ := renewal?_eq_some.mp hr
    rw [step_of_does? hb] at hreg hx
    rcases SharedStore.open_step hreg ho with hold | ⟨span, rfl, hlast, hnew, hmin, hg⟩
    -- the registry was there: its own renewal puts its lease off, any other step leaves it in time
    · have hl : registry.lease ≤ s.store.granted :=
        he.granted _ (List.mem_of_getElem? (SharedStore.getElem?_leases hold))
      have hlt : r < s.renewals.length := h.length_eq ▸ (List.getElem?_eq_some_iff.mp hold).1
      rcases renewalsAfter_cases hlt hx with ⟨rfl, x₀, hx₀, rfl⟩ | hx
      · have hr₀ : s.renewal? r = some (registry, x₀) := renewal?_eq_some.mpr ⟨hold, hx₀, ho⟩
        obtain ⟨registry', x', hr', hdue, rfl⟩ := does?_renew hb
        rw [hr₀] at hr'
        cases hr'
        rw [step_of_does? hb]
        exact (h.renewed r registry x₀ hr₀).again hs hdue
      · have hr₀ : s.renewal? r = some (registry, x) := renewal?_eq_some.mpr ⟨hold, hx, ho⟩
        exact keeps_step hs hl (h.renewed r registry x hr₀) (now_le_due h hr₀)
    -- the registry is new, and so is its renewal, which stands last in both lists
    · cases a with
      | renew m =>
        obtain ⟨_, _, _, _, heq⟩ := does?_renew hb
        cases heq
      | shared c =>
        obtain rfl := does?_shared hb
        have hlength : s.shared.registries.length <
            (s.shared.step (.establish span)).registries.length := by
          rw [hnew, List.length_append]
          exact Nat.lt_succ_self _
        have hx' : x = ⟨span, s.now⟩ := by
          simp only [renewalsAfter] at hx
          rw [if_pos hlength, hlast, ← h.length_eq, List.getElem?_concat_length] at hx
          exact (Option.some.inj hx).symm
        rw [store_establish hb hmin, hx']
        exact keeps_establish hs hmin hg

theorem length_step (h : s.renewals.length = s.shared.registries.length) :
    (s.step a).renewals.length = (s.step a).shared.registries.length := by
  cases hb : s.does? a with
  | none => rwa [step_of_none hb]
  | some b =>
    rw [step_of_does? hb]
    change (s.renewalsAfter (s.shared.step b) a).length = (s.shared.step b).registries.length
    unfold renewalsAfter
    split
    · rename_i m
      obtain ⟨registry, x, -, -, rfl⟩ := does?_renew hb
      rw [List.length_modify]
      exact h
    · rename_i span
      obtain rfl := does?_shared hb
      rcases SharedStore.establish_cases s.shared span with hsame | ⟨-, -, hnew⟩
      · have hlength : (s.shared.step (.establish span)).registries.length =
            s.shared.registries.length :=
          congrArg List.length hsame
        rw [hlength, if_neg (Nat.lt_irrefl _)]
        exact h
      · have hlength : (s.shared.step (.establish span)).registries.length =
            s.shared.registries.length + 1 := by
          change (s.shared.establish span).registries.length = _
          rw [hnew]
          exact List.length_append
        rw [hlength, if_pos (Nat.lt_succ_self _), List.length_append, h]
        rfl
    · rename_i hrenew hestablish
      rw [SharedStore.length_registries_eq fun span hspan => ?_]
      · exact h
      · subst hspan
        cases a with
        | renew m => exact hrenew m rfl
        | shared c => exact hestablish span (congrArg Action.shared (does?_shared hb).symm)

/-- The store is swept when that is due, or the time for it stays. -/
theorem sweep_cases : ((s.step a).store = s.store.step (.sweep []) ∧ s.sweepDue = s.now ∧
    (s.step a).sweepDue = s.sweepDue + Store.sweepInterval.nanos) ∨
    (s.step a).sweepDue = s.sweepDue := by
  cases hb : s.does? a with
  | none => exact .inr (congrArg sweepDue (step_of_none hb))
  | some b =>
    by_cases ha : a = .shared .sweep
    · subst ha
      obtain rfl := does?_shared hb
      have hdue : s.sweepDue = s.now := by
        simp only [does?] at hb
        split at hb
        · rename_i hdue
          exact hdue
        · cases hb
      refine .inl ⟨?_, hdue, ?_⟩
      · rw [store_step, request?, hb]
        rfl
      · rw [step_of_does? hb]
        rfl
    · right
      rw [step_of_does? hb]
      change s.sweepDueAfter a = s.sweepDue
      unfold sweepDueAfter
      split
      · exact absurd rfl ha
      · rfl

theorem now_le_step : s.now ≤ (s.step a).now := by
  rcases now_step (s := s) (a := a) with hsame | ⟨hle, -⟩
  · exact Int.le_of_eq hsame.symm
  · exact hle

/-- Every action leaves all timers in time. -/
theorem punctual_step (hs : s.store.Sound) (he : s.shared.Enrolled) (h : s.Punctual) :
    (s.step a).Punctual := by
  have hd : s.sweepDue - Store.sweepInterval.nanos ≤ s.now := by
    have hpast := h.sweep_past
    omega
  have hunbroken (hb : (s.step a).store.broken = false) : s.store.broken = false := by
    rw [store_step] at hb
    cases hreq : s.request? a with
    | none =>
      rw [hreq] at hb
      exact hb
    | some c =>
      rw [hreq] at hb
      exact Store.broken_acting (Store.acting _ c) hb
  have hrenewed (r : Nat) (registry : LeasedRegistry) (x : Renewal)
      (hr : (s.step a).renewal? r = some (registry, x)) := renewed_step hs he h hr
  rcases sweep_cases (s := s) (a := a) with ⟨hstore, hdue, hnext⟩ | hstays
  -- after a sweep the last sweep is now; without one it is where it was, and leases only get later
  -- ends
  · have hnow : (s.step a).now = s.now := by
      rw [now, hstore]
      exact Store.now_step nofun
    have hback : (s.step a).sweepDue - Store.sweepInterval.nanos = s.now := by omega
    refine ⟨length_step h.length_eq, ?_, ?_, fun hb => ?_, hrenewed⟩
    · have hle : (0 : Int) ≤ Store.sweepInterval.nanos := Int.natCast_nonneg _
      omega
    · omega
    · rw [hback, hstore]
      exact swept_sweep hs (hunbroken hb) (h.swept (hunbroken hb))
  · refine ⟨length_step h.length_eq, ?_, ?_, fun hb => ?_, hrenewed⟩
    · rw [hstays]
      exact now_le_sweepDue h
    · have hle : s.now ≤ (s.step a).now := now_le_step
      omega
    · rw [hstays, store_step]
      cases hreq : s.request? a with
      | none => exact h.swept (hunbroken hb)
      | some c => exact swept_step hs hd (h.swept (hunbroken hb))

theorem punctual_run : ((new start).run actions).Punctual := by
  induction actions using List.reverseRecOn with
  | nil => exact ⟨rfl, Int.le_refl _, Int.le_add_of_nonneg_right (Int.natCast_nonneg _),
    fun _ => nofun, nofun⟩
  | append_singleton before a ih =>
    rw [run_concat]
    exact punctual_step sound_run enrolled_run ih

/-! Open registries -/

/-- The lease of an open registry is never due. -/
theorem Punctual.not_isExpired (h : s.Punctual) (hr : s.shared.registries[r]? = some registry)
    (ho : registry.closed = false) (hb : s.store.broken = false) :
    ¬ s.store.IsExpired registry.lease := by
  have hlt : r < s.renewals.length := h.length_eq ▸ (List.getElem?_eq_some_iff.mp hr).1
  have hx := renewal?_eq_some.mpr ⟨hr, List.getElem?_eq_getElem hlt, ho⟩
  exact (h.renewed r registry _ hx).not_isExpired hb

/-- No sweep ends the lease of an open registry. -/
theorem Punctual.lease?_sweep (h : s.Punctual) (hs : s.store.Sound)
    (hr : s.shared.registries[r]? = some registry) (ho : registry.closed = false) :
    (s.step (.shared .sweep)).store.lease? registry.lease = s.store.lease? registry.lease := by
  rw [store_step]
  cases hreq : s.request? (.shared .sweep) with
  | none => rfl
  | some c =>
    obtain ⟨b, hb, hc⟩ := Option.bind_eq_some_iff.mp hreq
    obtain rfl := does?_shared hb
    cases hc
    apply Option.ext
    intro y
    change (s.store.step (.sweep [])).lease? registry.lease = some y ↔
      s.store.lease? registry.lease = some y
    rw [Store.lease?_step hs]
    constructor
    · rintro (⟨hg, -⟩ | ⟨hy, -⟩)
      · cases hg
      · exact hy
    · refine fun hy => .inr ⟨hy, nofun, fun hclosed => ?_⟩
      cases hclosed with
      | expire _ hunbroken hexpired => exact h.not_isExpired hr ho hunbroken hexpired

/-- The lease of an open registry stays alive unless somebody revokes it. -/
theorem alive_step (h : s.Punctual) (hs : s.store.Sound)
    (hr : (s.step a).shared.registries[r]? = some registry) (ho : registry.closed = false)
    (hrevoke : s.request? a ≠ some (.revoke registry.lease))
    (halive : s.shared.registries[r]? = some registry →
      (s.store.lease? registry.lease).isSome = true) :
    ((s.step a).store.lease? registry.lease).isSome = true := by
  cases hb : s.does? a with
  | none =>
    rw [step_of_none hb] at hr ⊢
    exact halive hr
  | some b =>
    rw [step_of_does? hb] at hr
    rcases SharedStore.open_step hr ho with hold | ⟨span, rfl, -, -, hmin, hg⟩
    · rw [store_step]
      cases hreq : s.request? a with
      | none => exact halive hold
      | some c =>
        rw [hreq] at hrevoke
        refine Store.isSome_step hs (halive hold) fun hclosed => ?_
        cases hclosed with
        | revoke _ => exact hrevoke rfl
        | expire _ hunbroken hexpired => exact h.not_isExpired hold ho hunbroken hexpired
    · rw [store_establish hb hmin]
      have hgiven := (Store.lease?_step hs (x := ⟨span, s.store.now + span.nanos⟩)).mpr
        (.inl ⟨hg, rfl⟩)
      exact Option.isSome_iff_exists.mpr ⟨_, hgiven⟩

/-- The lease of an open registry is alive unless somebody has revoked it. -/
theorem alive_run (hr : ((new start).run actions).shared.registries[r]? = some registry)
    (ho : registry.closed = false)
    (hrevoke : .revoke registry.lease ∉ (new start).requests actions) :
    (((new start).run actions).store.lease? registry.lease).isSome = true := by
  induction actions using List.reverseRecOn with
  | nil => cases hr
  | append_singleton before a ih =>
    rw [requests_concat, List.mem_append, not_or] at hrevoke
    rw [run_concat] at hr ⊢
    refine alive_step punctual_run sound_run hr ho (fun hreq => hrevoke.2 ?_)
      fun hold => ih hold hrevoke.1
    rw [hreq]
    exact List.mem_singleton_self _

end TimedStore
end RemoteCall
