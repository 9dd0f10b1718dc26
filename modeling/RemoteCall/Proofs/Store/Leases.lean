import RemoteCall.Proofs.Store.Action
import Mathlib.Data.List.Induction

/-! Which keys a store holds, and on which leases they depend.

A key is there because it was put and nothing has ended it since: no other put, no deletion, and not
the end of the lease that it was attached to. Lease numbers only grow, so a lease that has ended
never comes back. -/
namespace RemoteCall.Store
variable {s t : Store} {a : Action} {o : Outcome (Option Nat)} {actions : List Action} {start : Int}
  {key : String} {e : Entry} {lease : Nat}

theorem run_append {before after : List Action} :
    s.run (before ++ after) = (s.run before).run after :=
  List.foldl_append

theorem run_concat : s.run (actions ++ [a]) = (s.run actions).step a := List.foldl_concat ..

/-! The leases of a store -/

/-- Leases stand in the order in which they were granted, and every key that is attached to one is
attached to one that is alive. -/
structure Sound (s : Store) : Prop where
  granted : ∀ x ∈ s.leases, x.1 ≤ s.granted
  increasing : (s.leases.map Prod.fst).Pairwise (· < ·)
  alive : ∀ key e l, s.entries.get? key = some e → e.lease = some l → (s.lease? l).isSome = true

theorem isSome_lease? : (s.lease? lease).isSome = true ↔ lease ∈ s.leases.map Prod.fst := by
  rw [lease?, List.lookup_isSome_iff, List.mem_map]
  constructor
  · rintro ⟨x, hx, heq⟩
    exact ⟨x, hx, (eq_of_beq heq).symm⟩
  · rintro ⟨x, hx, rfl⟩
    exact ⟨x, hx, beq_self_eq_true _⟩

theorem sound_new : (new start).Sound where
  granted := nofun
  increasing := List.Pairwise.nil
  alive := nofun

/-- Where leases end, no key is left that is attached to one of them. -/
theorem Sound.frees {gone : Nat → Prop} (h : s.Sound) (hfrees : s.Frees t gone) : t.Sound := by
  refine ⟨fun x hx => ?_, ?_, fun key e l he hl => ?_⟩
  · rw [hfrees.rest.2.1]
    exact h.granted x (hfrees.sublist.subset hx)
  · exact h.increasing.sublist (hfrees.sublist.map Prod.fst)
  · -- what is left is attached to none of those that ended
    obtain ⟨hs, hkept⟩ := (hfrees.entries key e).mp he
    obtain ⟨x, hx⟩ := Option.isSome_iff_exists.mp (h.alive key e l hs hl)
    exact Option.isSome_iff_exists.mpr ⟨x, (hfrees.leases l x).mpr ⟨hx, hkept l hl⟩⟩

/-- A lease that is renewed keeps its number. -/
theorem map_fst_renewed (leases : List (Nat × Lease)) (lease : Nat) (x : Lease) :
    (leases.map fun e => if e.1 == lease then (lease, x) else e).map Prod.fst =
      leases.map Prod.fst := by
  rw [List.map_map]
  apply List.map_congr_left
  intro y hy
  rw [Function.comp_apply]
  split
  · rename_i heq
    exact (eq_of_beq heq).symm
  · rfl

/-- Whatever is done, leases stand in order, and no key is attached to one that has ended. -/
theorem sound_acting (h : s.Sound) (ha : s.Acting a t o) : t.Sound := by
  cases ha with
  | passes span => exact ⟨h.granted, h.increasing, h.alive⟩
  | refuses => exact h
  | breaks _ granted hle =>
    exact ⟨fun x hx => Nat.le_trans (h.granted x hx) hle, h.increasing, h.alive⟩
  | grants span expires hb =>
    refine ⟨fun x hx => ?_, ?_, fun key e l he hl => ?_⟩
    · rcases List.mem_append.mp hx with hx | hx
      · exact Nat.le_succ_of_le (h.granted x hx)
      · obtain rfl := List.mem_singleton.mp hx
        exact Nat.le_refl _
    · -- the new number is larger than all before
      rw [List.map_append, List.pairwise_append]
      refine ⟨h.increasing, List.pairwise_singleton _ _, fun m hm n hn => ?_⟩
      obtain ⟨x, hx, rfl⟩ := List.mem_map.mp hm
      obtain rfl := List.mem_singleton.mp hn
      exact Nat.lt_succ_of_le (h.granted x hx)
    · rw [isSome_lease?, List.map_append]
      exact List.mem_append_left _ (isSome_lease?.mp (h.alive key e l he hl))
  | renews lease x expires hb hx =>
    have hkeys := map_fst_renewed s.leases lease { x with expires }
    refine ⟨fun y hy => ?_, hkeys ▸ h.increasing, fun key e l he hl => ?_⟩
    · have hmem : y.1 ∈ s.leases.map Prod.fst := hkeys ▸ List.mem_map_of_mem hy
      obtain ⟨z, hz, heq⟩ := List.mem_map.mp hmem
      exact heq ▸ h.granted z hz
    · rw [isSome_lease?, hkeys]
      exact isSome_lease?.mp (h.alive key e l he hl)
  | puts key value lease hb halive =>
    refine ⟨h.granted, h.increasing, fun k e l he hl => ?_⟩
    rw [KeyMap.get?_insert] at he
    split at he
    · cases he
      exact halive l hl
    · exact h.alive k e l he hl
  | deletes key hb hin =>
    refine ⟨h.granted, h.increasing, fun k e l he hl => ?_⟩
    rw [KeyMap.get?_erase] at he
    split at he
    · cases he
    · exact h.alive k e l he hl
  | finds => exact h
  | revokes lease t hb halive hfrees => exact h.frees hfrees
  | sweeps first t hb hfrees => exact h.frees hfrees
  | rests => exact h

theorem sound_run (h : s.Sound) (actions : List Action) : (s.run actions).Sound := by
  induction actions generalizing s with
  | nil => exact h
  | cons a rest ih => exact ih (sound_acting h (acting s a))

/-- A sweep finds a lease just if its time has come. -/
theorem Sound.mem_expired (h : s.Sound) : lease ∈ s.expired ↔ s.IsExpired lease := by
  refine ⟨fun hmem => ?_, mem_expired_of_isExpired⟩
  obtain ⟨⟨n, x⟩, hx, rfl⟩ := List.mem_map.mp hmem
  obtain ⟨hin, hle⟩ := List.mem_filter.mp hx
  -- a number stands for one lease only
  have halive : (s.lease? n).isSome = true := isSome_lease?.mpr (List.mem_map_of_mem hin)
  obtain ⟨y, hy⟩ := Option.isSome_iff_exists.mp halive
  obtain ⟨before, after, heq, -⟩ := List.lookup_eq_some_iff.mp hy
  have hin' : (n, y) ∈ s.leases := by
    rw [heq]
    exact List.mem_append_right _ List.mem_cons_self
  have hxy := List.inj_on_of_nodup_map (h.increasing.imp Nat.ne_of_lt) hin hin' rfl
  cases hxy
  exact ⟨x, hy, of_decide_eq_true hle⟩

/-- Every lease gets a larger number than all before. -/
theorem granted_acting (h : s.Acting a t o) : s.granted ≤ t.granted ∧
    ∀ l, o = .answer (.ok (some l)) → s.granted < l ∧ l ≤ t.granted := by
  cases h with
  | grants span expires hb =>
    refine ⟨Nat.le_succ _, fun l hl => ?_⟩
    cases hl
    exact ⟨Nat.lt_succ_self _, Nat.le_refl _⟩
  | breaks _ granted hle => exact ⟨hle, nofun⟩
  | revokes _ _ _ _ hfrees => exact ⟨Nat.le_of_eq hfrees.rest.2.1.symm, nofun⟩
  | sweeps _ _ _ hfrees => exact ⟨Nat.le_of_eq hfrees.rest.2.1.symm, nofun⟩
  | _ => exact ⟨Nat.le_refl _, nofun⟩

/-- No lease number is given twice. -/
theorem grants_increasing (s : Store) (actions : List Action) :
    (s.grants actions).Pairwise (· < ·) ∧ ∀ l ∈ s.grants actions, s.granted < l := by
  -- on what is left of the run: whatever is granted later is larger than all granted before
  induction actions generalizing s with
  | nil => exact ⟨List.Pairwise.nil, nofun⟩
  | cons a rest ih =>
    obtain ⟨hle, hgrant⟩ := granted_acting (acting s a)
    obtain ⟨hrest, hlt⟩ := ih (s.step a)
    rw [grants]
    split
    · rename_i l hl
      obtain ⟨hnew, hlater⟩ := hgrant l hl
      refine ⟨List.pairwise_cons.mpr ⟨fun m hm => ?_, hrest⟩, fun m hm => ?_⟩
      · exact Nat.lt_of_le_of_lt hlater (hlt m hm)
      · rcases List.mem_cons.mp hm with rfl | hm
        · exact hnew
        · exact Nat.lt_of_le_of_lt hle (hlt m hm)
    · exact ⟨hrest, fun m hm => Nat.lt_of_le_of_lt hle (hlt m hm)⟩

/-- What fails changes nothing. -/
theorem eq_of_error {err : Error} (h : s.Acting a t (.answer (.error err))) : t = s := by
  cases h with
  | refuses => rfl

/-- Revoking ends one lease and what is attached to it. -/
theorem frees_of_revoke (h : s.Succeeds (.revoke lease)) :
    s.Frees (s.step (.revoke lease)) (· = lease) := by
  obtain ⟨l, hl⟩ := h
  have ha := acting s (.revoke lease)
  generalize s.step (.revoke lease) = t at ha ⊢
  rw [hl] at ha
  cases ha with
  | revokes _ _ _ _ hfrees => exact hfrees

/-- A sweep ends the leases whose time has come, and what is attached to them. -/
theorem frees_of_sweep {first : List Nat} (h : s.Sound) (hb : s.broken = false) :
    s.Frees (s.step (.sweep first)) s.IsExpired := by
  have hfrees := frees_foldl s (s.expiredFrom first)
  rw [step, act, sweepFrom, if_neg (ne_true_of_eq_false hb)]
  exact hfrees.congr fun l => mem_expiredFrom.trans h.mem_expired

/-! The keys of a store -/

/-- Done now, the action ends what was put under a key before, attached to a lease or to none. -/
inductive Ends (s : Store) (key : String) (lease : Option Nat) : Action → Prop
  | put (value : String) (other : Option Nat) (h : s.Succeeds (.put key value other)) :
    Ends s key lease (.put key value other)
  | delete (h : s.Succeeds (.delete key)) : Ends s key lease (.delete key)
  | revoke (l : Nat) (hl : lease = some l) (h : s.Succeeds (.revoke l)) :
    Ends s key lease (.revoke l)
  | expire (first : List Nat) (l : Nat) (hl : lease = some l) (hb : s.broken = false)
    (h : s.IsExpired l) : Ends s key lease (.sweep first)

theorem Ends.succeeds {l : Option Nat} (h : s.Ends key l a) : s.Succeeds a := by
  cases h with
  | put _ _ h => exact h
  | delete h => exact h
  | revoke _ _ h => exact h
  | expire => exact ⟨none, rfl⟩

/-- After the action the key has this entry: it was put just now, or it was there and nothing ends
it. -/
def Stands (s : Store) (key : String) (e : Entry) (a : Action) : Prop :=
  a = .put key e.value e.lease ∧ s.Succeeds a ∨ s.entries.get? key = some e ∧ ¬ s.Ends key e.lease a

/-- What leaves the entries alone neither puts nor ends one. -/
theorem get?_of_kept (hentries : t.entries = s.entries)
    (hput : ¬ (a = .put key e.value e.lease ∧ s.Succeeds a)) (hends : ¬ s.Ends key e.lease a) :
    t.entries.get? key = some e ↔ s.Stands key e a := by
  rw [hentries]
  constructor
  · intro he
    exact .inr ⟨he, hends⟩
  · intro hstands
    exact (hstands.resolve_left hput).1

theorem get?_of_fails (hentries : t.entries = s.entries) (hfail : ¬ s.Succeeds a) :
    t.entries.get? key = some e ↔ s.Stands key e a := by
  apply get?_of_kept hentries
  · exact fun hput => hfail hput.2
  · exact fun hends => hfail hends.succeeds

/-- What is not a put can only end something. -/
theorem stands_iff_of_ne_put (hput : ¬ a = .put key e.value e.lease) :
    s.Stands key e a ↔ s.entries.get? key = some e ∧ ¬ s.Ends key e.lease a :=
  or_iff_right fun hs => hput hs.1

/-- A put ends what was under its key, and leaves the others. -/
theorem get?_put {k value : String} {lease : Option Nat} (hs : s.Succeeds (.put k value lease)) :
    (s.entries.insert k ⟨value, lease⟩).get? key = some e ↔
    s.Stands key e (.put k value lease) := by
  rw [KeyMap.get?_insert]
  split
  · rename_i hk
    subst hk
    constructor
    · intro he
      cases he
      exact .inl ⟨rfl, hs⟩
    · rintro (⟨hput, -⟩ | ⟨-, hends⟩)
      · cases hput
        rfl
      · exact absurd (.put value lease hs) hends
  · rename_i hk
    constructor
    · intro he
      refine .inr ⟨he, fun hends => ?_⟩
      cases hends
      exact hk rfl
    · rintro (⟨hput, -⟩ | ⟨he, -⟩)
      · cases hput
        exact absurd rfl hk
      · exact he

/-- So does a deletion. -/
theorem get?_delete {k : String} (hs : s.Succeeds (.delete k)) :
    (s.entries.erase k).get? key = some e ↔ s.Stands key e (.delete k) := by
  rw [KeyMap.get?_erase, stands_iff_of_ne_put (a := .delete k) nofun]
  split
  · rename_i hk
    subst hk
    constructor
    · intro he
      cases he
    · intro he
      exact absurd (.delete hs) he.2
  · rename_i hk
    refine ⟨fun he => ⟨he, fun hends => ?_⟩, And.left⟩
    cases hends
    exact hk rfl

/-- What frees leases ends just what is attached to them. -/
theorem get?_of_frees {gone : Nat → Prop} (hfrees : s.Frees t gone)
    (hput : ¬ a = .put key e.value e.lease)
    (hends : s.Ends key e.lease a ↔ ∃ l, e.lease = some l ∧ gone l) :
    t.entries.get? key = some e ↔ s.Stands key e a := by
  rw [hfrees.entries, stands_iff_of_ne_put hput, hends]
  simp only [not_exists, not_and]

theorem ends_revoke {l : Nat} {attached : Option Nat} (hs : s.Succeeds (.revoke l)) :
    s.Ends key attached (.revoke l) ↔ ∃ m, attached = some m ∧ m = l := by
  constructor
  · intro hends
    cases hends with
    | revoke _ hl _ => exact ⟨l, hl, rfl⟩
  · rintro ⟨m, hm, rfl⟩
    exact .revoke m hm hs

theorem ends_sweep {first : List Nat} {attached : Option Nat} (hb : s.broken = false) :
    s.Ends key attached (.sweep first) ↔ ∃ l, attached = some l ∧ s.IsExpired l := by
  constructor
  · intro hends
    cases hends with
    | expire _ l hl _ hexpired => exact ⟨l, hl, hexpired⟩
  · rintro ⟨l, hl, hexpired⟩
    exact .expire first l hl hb hexpired

/-- What an action does to a key. -/
theorem get?_step (h : s.Sound) : (s.step a).entries.get? key = some e ↔ s.Stands key e a := by
  have ha := acting s a
  have hsucceeds : s.Succeeds a ↔ ∃ l, (s.act a).2 = .answer (.ok l) := Iff.rfl
  generalize s.step a = t at ha ⊢
  generalize (s.act a).2 = o at ha hsucceeds
  cases ha with
  | passes span => exact get?_of_kept (a := .pass span) rfl nofun nofun
  | refuses _ err => exact get?_of_fails rfl fun hs => by simpa using hsucceeds.mp hs
  | breaks => exact get?_of_fails rfl fun hs => by simpa using hsucceeds.mp hs
  | grants span expires hb => exact get?_of_kept (a := .grant span) rfl nofun nofun
  | renews lease x expires hb hx => exact get?_of_kept (a := .keepAlive lease) rfl nofun nofun
  | puts k value lease hb halive => exact get?_put (hsucceeds.mpr ⟨none, rfl⟩)
  | deletes k hb hin => exact get?_delete (hsucceeds.mpr ⟨none, rfl⟩)
  | finds k hb hout =>
    -- there is nothing that a deletion could end
    rw [stands_iff_of_ne_put (a := .delete k) nofun]
    refine ⟨fun he => ⟨he, fun hends => ?_⟩, And.left⟩
    cases hends
    rw [hout] at he
    cases he
  | revokes l t hb halive hfrees =>
    exact get?_of_frees (a := .revoke l) hfrees nofun (ends_revoke (hsucceeds.mpr ⟨none, rfl⟩))
  | sweeps first t hb hfrees =>
    exact get?_of_frees (a := .sweep first) (hfrees.congr fun _ => h.mem_expired) nofun
      (ends_sweep hb)
  | rests first hb =>
    -- a broken store ends nothing
    refine get?_of_kept (a := .sweep first) rfl nofun fun hends => ?_
    cases hends with
    | expire _ _ _ hb' => exact absurd hb (ne_true_of_eq_false hb')

/-- In the run the key was put with this value and attached to this lease or to none, and nothing
has ended that since. -/
inductive Standing (start : Int) : List Action → String → Entry → Prop
  | made (before : List Action) (key : String) (e : Entry)
    (h : ((new start).run before).Succeeds (.put key e.value e.lease)) :
    Standing start (before ++ [.put key e.value e.lease]) key e
  | kept {actions : List Action} {key : String} {e : Entry} (a : Action)
    (h : Standing start actions key e) (hkept : ¬ ((new start).run actions).Ends key e.lease a) :
    Standing start (actions ++ [a]) key e

/-- A store holds exactly what stands. -/
theorem get?_run : ((new start).run actions).entries.get? key = some e ↔
    Standing start actions key e := by
  constructor
  · -- on the run, from its end
    induction actions using List.reverseRecOn with
    | nil =>
      intro he
      cases he
    | append_singleton before a ih =>
      intro he
      rw [run_concat, get?_step (sound_run sound_new before)] at he
      rcases he with ⟨rfl, hs⟩ | ⟨he, hends⟩
      · exact .made before key e hs
      · exact .kept a (ih he) hends
  · intro h
    induction h with
    | made before key e h =>
      rw [run_concat, get?_step (sound_run sound_new before)]
      exact .inl ⟨rfl, h⟩
    | kept a h hkept ih =>
      rw [run_concat, get?_step (sound_run sound_new _)]
      exact .inr ⟨ih, hkept⟩

/-! As long as a lease is alive -/

/-- A broken store stays so. -/
theorem broken_acting (h : s.Acting a t o) (hb : t.broken = false) : s.broken = false := by
  cases h with
  | breaks => cases hb
  | revokes _ _ hb' => exact hb'
  | sweeps _ _ hb' => exact hb'
  | _ => exact hb

/-- A lease that is alive and is not new was alive before. -/
theorem alive_acting (h : s.Acting a t o) (hl : lease ≤ s.granted)
    (halive : (t.lease? lease).isSome = true) : (s.lease? lease).isSome = true := by
  have hfrees {gone : Nat → Prop} (h : s.Frees t gone) : (s.lease? lease).isSome = true := by
    obtain ⟨x, hx⟩ := Option.isSome_iff_exists.mp halive
    exact Option.isSome_iff_exists.mpr ⟨x, ((h.leases lease x).mp hx).1⟩
  cases h with
  | grants span expires hb =>
    rw [isSome_lease?, List.map_append, List.mem_append, List.map_singleton,
      List.mem_singleton] at halive
    rcases halive with hin | rfl
    · exact isSome_lease?.mpr hin
    · exact absurd hl (Nat.not_succ_le_self _)
  | renews other x expires hb hx =>
    rw [isSome_lease?, map_fst_renewed] at halive
    exact isSome_lease?.mpr halive
  | revokes _ _ _ _ h => exact hfrees h
  | sweeps _ _ _ h => exact hfrees h
  | _ => exact halive

/-- What is attached to a lease that stays alive ends only with another put or a deletion. -/
theorem Ends.of_alive (hs : s.Sound) (h : s.Ends key (some lease) a)
    (halive : ((s.step a).lease? lease).isSome = true) :
    (∃ value other, a = .put key value other) ∨ a = .delete key := by
  obtain ⟨x, hx⟩ := Option.isSome_iff_exists.mp halive
  cases h with
  | put value other _ => exact .inl ⟨value, other, rfl⟩
  | delete _ => exact .inr rfl
  | revoke l hl h =>
    cases hl
    exact absurd rfl (((frees_of_revoke h).leases _ x).mp hx).2
  | expire first l hl hb h =>
    cases hl
    exact absurd h (((frees_of_sweep hs hb).leases _ x).mp hx).2

theorem succeeds_put {value : String} (hb : s.broken = false)
    (halive : (s.lease? lease).isSome = true) : s.Succeeds (.put key value (some lease)) := by
  refine ⟨none, ?_⟩
  obtain ⟨x, hx⟩ := Option.isSome_iff_exists.mp halive
  simp only [act, put, hb, Bool.false_eq_true, ↓reduceIte, Option.filter_some,
    hx, Option.isNone_some]
  rfl

theorem succeeds_delete (hb : s.broken = false) : s.Succeeds (.delete key) := by
  refine ⟨none, ?_⟩
  simp only [act, delete, hb, Bool.false_eq_true, ↓reduceIte]
  rfl

end RemoteCall.Store
