import RemoteCall.Store.Action
import RemoteCall.Proofs.Data.KeyMap

/-! What an action can do to a store, said once: every property of stores is kept by these cases. -/
namespace RemoteCall.Store
variable {s t u : Store} {key : String} {lease : Nat} {e : Entry} {gone more : Nat → Prop}

/-! Ending leases -/

theorem foldl_removeKey (s : Store) (keys : List String) : keys.foldl removeKey s =
    { s with
      entries := keys.foldl KeyMap.erase s.entries
      log := s.log ++ keys.map .delete } := by
  induction keys generalizing s with
  | nil =>
    rw [List.map_nil, List.append_nil]
    rfl
  | cons key rest ih =>
    rw [List.foldl_cons, ih, List.map_cons, List.append_cons]
    rfl

theorem mem_attached : key ∈ s.attached lease ↔
    ∃ e, s.entries.get? key = some e ∧ e.lease = some lease := by
  rw [attached, KeyMap.mem_keys, KeyMap.get?_filter, Option.isSome_iff_exists]
  simp only [Option.filter_eq_some_iff, beq_iff_eq]

theorem lookup_filter_ne {leases : List (Nat × Lease)} {l : Nat} :
    (leases.filter fun e => e.1 != lease).lookup l =
      if l = lease then none else leases.lookup l := by
  induction leases with
  | nil => simp
  | cons a rest ih =>
    obtain ⟨n, x⟩ := a
    by_cases hn : n = lease
    · rw [List.filter_cons_of_neg (by simp [hn]), ih]
      split
      · rfl
      · rename_i hl
        have hne : (l == n) = false := by simpa [hn] using hl
        rw [List.lookup_cons, hne]
    · rw [List.filter_cons_of_pos (by simpa using hn), List.lookup_cons, List.lookup_cons, ih]
      by_cases hl : l = n
      · have hne : ¬ l = lease := fun he => hn (hl.symm.trans he)
        simp [hl, hn]
      · have hne : (l == n) = false := by simpa using hl
        rw [hne]

/-- What becomes of a store when some leases end: their keys go with them, and each key that goes is
written to the log once. Nothing else changes. -/
structure Frees (s t : Store) (gone : Nat → Prop) : Prop where
  entries : ∀ key e, t.entries.get? key = some e ↔
    s.entries.get? key = some e ∧ ∀ l, e.lease = some l → ¬ gone l
  leases : ∀ l x, t.lease? l = some x ↔ s.lease? l = some x ∧ ¬ gone l
  sublist : t.leases.Sublist s.leases
  log : ∃ keys : List String, t.log = s.log ++ keys.map .delete ∧ keys.Nodup ∧
    ∀ key, key ∈ keys ↔ ∃ e l, s.entries.get? key = some e ∧ e.lease = some l ∧ gone l
  rest : t.now = s.now ∧ t.granted = s.granted ∧ t.broken = s.broken

theorem frees_none (s : Store) : s.Frees s fun _ => False where
  entries := by simp
  leases := by simp
  sublist := List.Sublist.refl _
  log := ⟨[], by simp, List.nodup_nil, by simp⟩
  rest := ⟨rfl, rfl, rfl⟩

/-- A lease that ends takes its keys along, and each is written down. -/
theorem frees_removeLease (s : Store) (lease : Nat) :
    s.Frees (s.removeLease lease) (· = lease) := by
  have heq : s.removeLease lease = { s with
      entries := (s.attached lease).foldl KeyMap.erase s.entries
      leases := s.leases.filter fun e => e.1 != lease
      log := s.log ++ (s.attached lease).map .delete } := foldl_removeKey _ _
  rw [heq]
  refine ⟨fun key e => ?_, fun l x => ?_, List.filter_sublist,
    ⟨s.attached lease, rfl, ?_, fun key => ?_⟩, rfl, rfl, rfl⟩
  · change ((s.attached lease).foldl KeyMap.erase s.entries).get? key = some e ↔ _
    rw [KeyMap.get?_foldl_erase]
    by_cases hmem : key ∈ s.attached lease
    · -- the entry of the key is attached to the lease
      obtain ⟨e', he', hl⟩ := mem_attached.mp hmem
      rw [if_pos hmem, he']
      constructor
      · intro h
        cases h
      · rintro ⟨h, hgone⟩
        cases h
        exact absurd rfl (hgone lease hl)
    · rw [if_neg hmem]
      constructor
      · intro h
        refine ⟨h, fun l hl he => hmem (mem_attached.mpr ⟨e, h, he ▸ hl⟩)⟩
      · exact fun h => h.1
  · change (s.leases.filter fun e => e.1 != lease).lookup l = some x ↔ _
    rw [lookup_filter_ne]
    by_cases hl : l = lease
    · simp [hl]
    · simp [hl, lease?]
  · exact KeyMap.nodup_keys _
  · rw [mem_attached]
    constructor
    · rintro ⟨e, he, hl⟩
      exact ⟨e, lease, he, hl, rfl⟩
    · rintro ⟨e, l, he, hl, rfl⟩
      exact ⟨e, he, hl⟩

/-- Leases may end one after the other. -/
theorem Frees.trans (h : s.Frees t gone) (h' : t.Frees u more) :
    s.Frees u fun l => gone l ∨ more l := by
  refine ⟨fun key e => ?_, fun l x => ?_, h'.sublist.trans h.sublist, ?_, ?_⟩
  · rw [h'.entries, h.entries, and_assoc]
    simp only [not_or, ← forall_and]
  · rw [h'.leases, h.leases, and_assoc, not_or]
  · obtain ⟨keys, hlog, hnodup, hkeys⟩ := h.log
    obtain ⟨keys', hlog', hnodup', hkeys'⟩ := h'.log
    refine ⟨keys ++ keys', ?_, List.nodup_append'.mpr ⟨hnodup, hnodup', fun key hk hk' => ?_⟩,
      fun key => ?_⟩
    · rw [hlog', hlog, List.map_append, List.append_assoc]
    · -- a key that went with the first is not there any more
      obtain ⟨e, l, he, hl, hgone⟩ := (hkeys key).mp hk
      obtain ⟨e', -, he', -⟩ := (hkeys' key).mp hk'
      obtain ⟨hs, hkept⟩ := (h.entries key e').mp he'
      rw [he] at hs
      cases hs
      exact hkept l hl hgone
    · rw [List.mem_append, hkeys, hkeys']
      constructor
      · rintro (⟨e, l, he, hl, hgone⟩ | ⟨e, l, he, hl, hgone⟩)
        · exact ⟨e, l, he, hl, .inl hgone⟩
        · exact ⟨e, l, ((h.entries key e).mp he).1, hl, .inr hgone⟩
      · rintro ⟨e, l, he, hl, hgone⟩
        by_cases hfirst : gone l
        · exact .inl ⟨e, l, he, hl, hfirst⟩
        · refine .inr ⟨e, l, (h.entries key e).mpr ⟨he, fun l' hl' => ?_⟩, hl,
            hgone.resolve_left hfirst⟩
          rw [hl] at hl'
          cases hl'
          exact hfirst
  · obtain ⟨hnow, hgranted, hbroken⟩ := h.rest
    obtain ⟨hnow', hgranted', hbroken'⟩ := h'.rest
    exact ⟨hnow'.trans hnow, hgranted'.trans hgranted, hbroken'.trans hbroken⟩

theorem Frees.congr (h : s.Frees t gone) (heq : ∀ l, gone l ↔ more l) : s.Frees t more := by
  have hgone : gone = more := funext fun l => propext (heq l)
  exact hgone ▸ h

/-- Several leases that end take along what is attached to any of them. -/
theorem frees_foldl (s : Store) (leases : List Nat) :
    s.Frees (leases.foldl removeLease s) (· ∈ leases) := by
  -- on the leases that are still to end, from any store
  induction leases generalizing s with
  | nil => exact (frees_none s).congr fun l => by simp
  | cons lease rest ih => exact ((frees_removeLease s lease).trans (ih _)).congr fun l => by simp

theorem mem_expired_of_isExpired (h : s.IsExpired lease) : lease ∈ s.expired := by
  obtain ⟨x, hx, hle⟩ := h
  obtain ⟨before, after, heq, -⟩ := List.lookup_eq_some_iff.mp hx
  have hmem : (lease, x) ∈ s.leases := by
    rw [heq]
    exact List.mem_append_right _ List.mem_cons_self
  exact List.mem_map.mpr ⟨_, List.mem_filter.mpr ⟨hmem, decide_eq_true hle⟩, rfl⟩

/-- In whatever order it comes upon leases, a sweep ends those whose time has come. -/
theorem mem_expiredFrom {first : List Nat} : lease ∈ s.expiredFrom first ↔ lease ∈ s.expired := by
  rw [expiredFrom, List.mem_append, List.mem_filter, List.mem_filter, List.contains_iff_mem,
    Bool.not_eq_true', ← Bool.not_eq_true, List.contains_iff_mem]
  constructor
  · rintro (h | h)
    · exact h.2
    · exact h.1
  · intro h
    by_cases hfirst : lease ∈ first
    · exact .inl ⟨hfirst, h⟩
    · exact .inr ⟨h, hfirst⟩

/-! All cases -/

inductive Acting (s : Store) : Action → Store → Outcome (Option Nat) → Prop
  | passes (span : Nat) : Acting s (.pass span) { s with now := s.now + span } (.answer (.ok none))
  | refuses (a : Action) (e : Error) : Acting s a s (.answer (.error e))
  | breaks (a : Action) (granted : Nat) (hle : s.granted ≤ granted) :
    Acting s a { s with granted, broken := true } .crash
  | grants (span : Duration) (expires : Int) (hb : s.broken = false) : Acting s (.grant span)
    { s with granted := s.granted + 1, leases := s.leases ++ [(s.granted + 1, ⟨span, expires⟩)] }
    (.answer (.ok (some (s.granted + 1))))
  | renews (lease : Nat) (x : Lease) (expires : Int) (hb : s.broken = false)
    (hx : s.lease? lease = some x) : Acting s (.keepAlive lease)
    { s with leases := s.leases.map fun e =>
      if e.1 == lease then (lease, { x with expires }) else e }
    (.answer (.ok none))
  | puts (key value : String) (lease : Option Nat) (hb : s.broken = false)
    (halive : ∀ l, lease = some l → (s.lease? l).isSome = true) : Acting s (.put key value lease)
    { s with
      entries := s.entries.insert key { value, lease }
      log := s.log ++ [.put key value] } (.answer (.ok none))
  | deletes (key : String) (hb : s.broken = false) (hin : (s.entries.get? key).isSome = true) :
    Acting s (.delete key) { s with
      entries := s.entries.erase key
      log := s.log ++ [.delete key] } (.answer (.ok none))
  | finds (key : String) (hb : s.broken = false) (hout : s.entries.get? key = none) :
    Acting s (.delete key) s (.answer (.ok none))
  | revokes (lease : Nat) (t : Store) (hb : s.broken = false)
    (halive : (s.lease? lease).isSome = true)
    (hfrees : s.Frees t (· = lease)) : Acting s (.revoke lease) t (.answer (.ok none))
  | sweeps (first : List Nat) (t : Store) (hb : s.broken = false)
    (hfrees : s.Frees t (· ∈ s.expired)) :
    Acting s (.sweep first) t (.answer (.ok none))
  | rests (first : List Nat) (hb : s.broken = true) : Acting s (.sweep first) s (.answer (.ok none))

theorem acting_grant (span : Duration) :
    s.Acting (.grant span) (s.grant span).1 ((s.grant span).2.map some) := by
  unfold grant
  split
  · exact .refuses _ _
  split
  · exact .refuses _ _
  rename_i hb
  dsimp only
  -- an expiry that no clock can hold breaks the store
  split
  · exact .grants span _ (eq_false_of_ne_true hb)
  · exact .breaks _ _ (Nat.le_succ _)

theorem acting_keepAlive (lease : Nat) :
    s.Acting (.keepAlive lease) (s.keepAlive lease).1
      ((s.keepAlive lease).2.map fun _ => none) := by
  unfold keepAlive
  split
  · exact .refuses _ _
  rename_i hb
  split
  · exact .refuses _ _
  rename_i x hx
  split
  · exact .renews lease x _ (eq_false_of_ne_true hb) hx
  · exact .breaks _ _ (Nat.le_refl _)

theorem acting_revoke (lease : Nat) : s.Acting (.revoke lease) (s.revoke lease).1
    (.answer ((s.revoke lease).2.map fun _ => none)) := by
  unfold revoke
  split
  · exact .refuses _ _
  rename_i hb
  split
  · exact .refuses _ _
  rename_i halive
  have halive : (s.lease? lease).isSome = true := by
    simpa using Option.ne_none_iff_isSome.mp (by simpa using halive)
  exact .revokes lease _ (eq_false_of_ne_true hb) halive (frees_removeLease s lease)

theorem acting_put (key value : String) (lease : Option Nat) :
    s.Acting (.put key value lease) (s.put key value lease).1
      (.answer ((s.put key value lease).2.map fun _ => none)) := by
  unfold put
  split
  · exact .refuses _ _
  rename_i hb
  split
  · exact .refuses _ _
  rename_i halive
  refine .puts key value lease (eq_false_of_ne_true hb) fun l hl => ?_
  subst hl
  rw [Option.filter_some] at halive
  cases h : s.lease? l with
  | none =>
    rw [h] at halive
    cases halive
  | some x => rfl

theorem acting_delete (key : String) : s.Acting (.delete key) (s.delete key).1
    (.answer ((s.delete key).2.map fun _ => none)) := by
  unfold delete
  split
  · exact .refuses _ _
  rename_i hb
  dsimp only
  split
  · rename_i hin
    exact .deletes key (eq_false_of_ne_true hb) hin
  · rename_i hout
    exact .finds key (eq_false_of_ne_true hb) (by simpa [KeyMap.contains] using hout)

theorem acting_sweep (first : List Nat) :
    s.Acting (.sweep first) (s.sweepFrom first) (.answer (.ok none)) := by
  unfold sweepFrom
  split
  · rename_i hb
    exact .rests first hb
  · rename_i hb
    exact .sweeps first _ (eq_false_of_ne_true hb)
      ((frees_foldl s _).congr fun l => mem_expiredFrom)

/-- These are all cases of what an action can do. -/
theorem acting (s : Store) (a : Action) : s.Acting a (s.step a) (s.act a).2 := by
  cases a with
  | pass span => exact .passes span
  | grant span => exact acting_grant span
  | keepAlive lease => exact acting_keepAlive lease
  | revoke lease => exact acting_revoke lease
  | put key value lease => exact acting_put key value lease
  | delete key => exact acting_delete key
  | sweep first => exact acting_sweep first

end RemoteCall.Store
