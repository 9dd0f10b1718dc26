import RemoteCall.Proofs.Store.Action

/-! The log of a store tells what becomes of its keys.

A put is written down as itself. Everything else can only take keys away, and writes one deletion
for each of them. So whoever knows the keys at some time and reads the log from there on knows the
keys now. -/
namespace RemoteCall.Store
variable {s t : Store} {a : Action} {o : Outcome (Option Nat)}
  {key value : String} {keys : List String}
  {lease : Option Nat} {gone : Nat → Prop}

def contents (s : Store) : KeyMap String := s.entries.map Entry.value

def Change.apply (m : KeyMap String) : Change → KeyMap String
  | put key value => m.insert key value
  | delete key => m.erase key

def replay (m : KeyMap String) (changes : List Change) : KeyMap String :=
  changes.foldl Change.apply m

theorem replay_append {m : KeyMap String} {before after : List Change} :
    replay m (before ++ after) = replay (replay m before) after := List.foldl_append

theorem replay_map_delete {m : KeyMap String} (keys : List String) :
    replay m (keys.map .delete) = keys.foldl KeyMap.erase m := List.foldl_map

theorem get?_contents : s.contents.get? key = (s.entries.get? key).map Entry.value :=
  KeyMap.get?_map

/-! What an action writes to the log -/

/-- The store loses these keys and nothing else, and writes a deletion for each of them. -/
structure Loses (s t : Store) (keys : List String) : Prop where
  log : t.log = s.log ++ keys.map .delete
  nodup : keys.Nodup
  mem_iff : ∀ key, key ∈ keys ↔ (s.entries.get? key).isSome = true ∧ t.entries.get? key = none
  kept : ∀ key, key ∉ keys → t.entries.get? key = s.entries.get? key

theorem loses_none (hlog : t.log = s.log) (hentries : t.entries = s.entries) : s.Loses t [] where
  log := by rw [hlog, List.map_nil, List.append_nil]
  nodup := List.nodup_nil
  mem_iff key := by
    rw [hentries]
    constructor
    · intro h
      exact absurd h List.not_mem_nil
    · rintro ⟨hsome, hnone⟩
      rw [hnone] at hsome
      cases hsome
  kept key _ := by rw [hentries]

theorem loses_delete (hin : (s.entries.get? key).isSome = true) :
    s.Loses { s with entries := s.entries.erase key, log := s.log ++ [.delete key] } [key] where
  log := rfl
  nodup := List.nodup_singleton key
  mem_iff k := by
    rw [List.mem_singleton, KeyMap.get?_erase]
    constructor
    · rintro rfl
      exact ⟨hin, if_pos rfl⟩
    · rintro ⟨hsome, hnone⟩
      by_cases hk : key = k
      · exact hk.symm
      · rw [if_neg hk] at hnone
        rw [hnone] at hsome
        cases hsome
  kept k hk := by
    rw [List.mem_singleton] at hk
    rw [KeyMap.get?_erase, if_neg (Ne.symm hk)]

/-- Leases that end lose the store their keys, and a deletion is written for each. -/
theorem Frees.loses (h : s.Frees t gone) : ∃ keys, s.Loses t keys := by
  obtain ⟨keys, hlog, hnodup, hkeys⟩ := h.log
  refine ⟨keys, hlog, hnodup, fun key => ?_, fun key hkey => ?_⟩
  · rw [hkeys]
    constructor
    · rintro ⟨e, l, he, hl, hgone⟩
      refine ⟨Option.isSome_iff_exists.mpr ⟨e, he⟩,
        Option.eq_none_iff_forall_ne_some.mpr fun e' he' => ?_⟩
      obtain ⟨hs, hkept⟩ := (h.entries key e').mp he'
      rw [he] at hs
      cases hs
      exact hkept l hl hgone
    · -- an entry that is not there any more was attached to a lease that ended
      rintro ⟨hsome, hnone⟩
      obtain ⟨e, he⟩ := Option.isSome_iff_exists.mp hsome
      apply Classical.byContradiction
      intro hno
      have hkept : t.entries.get? key = some e :=
        (h.entries key e).mpr ⟨he, fun l hl hgone => hno ⟨e, l, he, hl, hgone⟩⟩
      rw [hkept] at hnone
      cases hnone
  · apply Option.ext
    intro e
    rw [h.entries]
    constructor
    · exact fun he => he.1
    · intro he
      exact ⟨he, fun l hl hgone => hkey ((hkeys key).mpr ⟨e, l, he, hl, hgone⟩)⟩

inductive Recorded (s t : Store) (a : Action) : List Change → Prop
  | put (key value : String) (lease : Option Nat) (ha : a = .put key value lease)
    (hs : s.Succeeds a) :
    Recorded s t a [.put key value]
  | losses (keys : List String) (ha : ∀ key value lease, a = .put key value lease → ¬ s.Succeeds a)
    (hnodup : keys.Nodup) (hkeys : ∀ key, key ∈ keys ↔
      (s.entries.get? key).isSome = true ∧ t.entries.get? key = none) :
    Recorded s t a (keys.map .delete)

/-- Replaying the deletions takes out what was lost. -/
theorem Loses.replay (h : s.Loses t keys) : replay s.contents (keys.map .delete) = t.contents := by
  apply KeyMap.ext_get?
  intro key
  rw [replay_map_delete, KeyMap.get?_foldl_erase, get?_contents, get?_contents]
  split
  · rename_i hkey
    rw [((h.mem_iff key).mp hkey).2]
    rfl
  · rename_i hkey
    rw [h.kept key hkey]

theorem replay_put : replay s.contents [.put key value] =
    KeyMap.map Entry.value (s.entries.insert key { value, lease }) := by
  apply KeyMap.ext_get?
  intro k
  change (s.contents.insert key value).get? k = _
  rw [KeyMap.get?_insert, KeyMap.get?_map, KeyMap.get?_insert, get?_contents]
  split
  · rfl
  · rfl

/-- An action writes to the log what it does to the keys. -/
theorem recorded_step (s : Store) (a : Action) : ∃ news, (s.step a).log = s.log ++ news ∧
    s.Recorded (s.step a) a news ∧ replay s.contents news = (s.step a).contents := by
  have ha := acting s a
  have hsucceeds : s.Succeeds a ↔ ∃ l, (s.act a).2 = .answer (.ok l) := Iff.rfl
  generalize s.step a = t at ha ⊢
  generalize (s.act a).2 = o at ha hsucceeds
  -- all but a put that succeeds is a loss of keys, often of none
  have hlosses {keys : List String} (h : s.Loses t keys)
      (hput : ∀ key value lease, a = .put key value lease → ¬ s.Succeeds a) :
      ∃ news, t.log = s.log ++ news ∧ s.Recorded t a news ∧ replay s.contents news = t.contents :=
    ⟨_, h.log, .losses keys hput h.nodup h.mem_iff, h.replay⟩
  cases ha with
  | passes span => exact hlosses (loses_none rfl rfl) nofun
  | refuses =>
    refine hlosses (loses_none rfl rfl) fun key value lease _ hs => ?_
    obtain ⟨l, hl⟩ := hsucceeds.mp hs
    cases hl
  | breaks =>
    refine hlosses (loses_none rfl rfl) fun key value lease _ hs => ?_
    obtain ⟨l, hl⟩ := hsucceeds.mp hs
    cases hl
  | grants => exact hlosses (loses_none rfl rfl) nofun
  | renews => exact hlosses (loses_none rfl rfl) nofun
  | puts key value lease =>
    exact ⟨_, rfl, .put key value lease rfl (hsucceeds.mpr ⟨none, rfl⟩), replay_put⟩
  | deletes key hb hin => exact hlosses (loses_delete hin) nofun
  | finds => exact hlosses (loses_none rfl rfl) nofun
  | revokes lease t hb halive hfrees =>
    obtain ⟨keys, hkeys⟩ := hfrees.loses
    exact hlosses hkeys nofun
  | sweeps first t hb hfrees =>
    obtain ⟨keys, hkeys⟩ := hfrees.loses
    exact hlosses hkeys nofun
  | rests => exact hlosses (loses_none rfl rfl) nofun

/-- Reading the log from some time on yields the keys of now. -/
theorem replay_run (s : Store) (actions : List Action) :
    ∃ news, (s.run actions).log = s.log ++ news ∧
    replay s.contents news = (s.run actions).contents := by
  induction actions generalizing s with
  | nil => exact ⟨[], (List.append_nil _).symm, rfl⟩
  | cons a rest ih =>
    obtain ⟨first, hfirst, -, hreplay⟩ := recorded_step s a
    obtain ⟨more, hmore, hreplay'⟩ := ih (s.step a)
    refine ⟨first ++ more, ?_, ?_⟩
    · change ((s.step a).run rest).log = _
      rw [hmore, hfirst, List.append_assoc]
    · rw [replay_append, hreplay]
      exact hreplay'

end RemoteCall.Store
