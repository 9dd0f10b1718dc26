import RemoteCall.Data.KeyMap
import Mathlib.Data.List.Nodup

/-! Maps as lists of entries: entries with keys of their own make the same map in whatever order
they come. -/
namespace RemoteCall.KeyMap
variable {α : Type} {m : KeyMap α} {key : String} {value : α}

theorem nodup_keys (m : KeyMap α) : (m.entries.map Prod.fst).Nodup := by
  apply List.pairwise_map.mpr
  apply m.sorted.imp
  intro a b h he
  exact String.lt_irrefl _ (he ▸ h)

theorem contains_eq_true : m.contains key = true ↔ key ∈ m.entries.map Prod.fst := by
  simp only [contains, get?, Option.isSome_map, List.find?_isSome, beq_iff_eq, List.mem_map]

theorem contains_eq_false : m.contains key = false ↔ key ∉ m.entries.map Prod.fst := by
  rw [← contains_eq_true, Bool.not_eq_true]

theorem perm_insertEntry {l : List (String × α)} (h : key ∉ l.map Prod.fst) :
    (insertEntry key value l).Perm ((key, value) :: l) := by
  induction l with
  | nil => exact .refl _
  | cons a rest ih =>
    rw [List.map_cons, List.mem_cons, not_or] at h
    rw [insertEntry]
    split
    · exact .refl _
    · rw [if_neg h.1]
      exact ((ih h.2).cons a).trans (.swap ..)

/-- A new key only adds its entry. -/
theorem perm_insert (h : m.contains key = false) :
    (m.insert key value).entries.Perm ((key, value) :: m.entries) :=
  perm_insertEntry (contains_eq_false.mp h)

/-- The entries of a map stand in one order only. -/
theorem eq_of_perm {a b : KeyMap α} (h : a.entries.Perm b.entries) : a = b := by
  apply ext_entries
  apply h.eq_of_pairwise _ a.sorted b.sorted
  intro x y _ _ hxy hyx
  exact absurd (String.lt_trans hxy hyx) (String.lt_irrefl _)

/-- Entries whose keys are all new are added as they are. -/
theorem perm_insertAll {l : List (String × α)} (h : ((m.entries ++ l).map Prod.fst).Nodup) :
    (m.insertAll l).entries.Perm (m.entries ++ l) := by
  -- on the entries that are still to be added, to any map
  induction l generalizing m with
  | nil =>
    rw [List.append_nil]
    exact .refl _
  | cons e rest ih =>
    have hall : (m.entries ++ e :: rest).Perm (e :: (m.entries ++ rest)) := List.perm_middle
    have hkeys : (e.1 :: (m.entries ++ rest).map Prod.fst).Nodup :=
      (hall.map Prod.fst).nodup_iff.mp h
    have hnew : m.contains e.1 = false := by
      apply contains_eq_false.mpr
      intro hm
      apply (List.nodup_cons.mp hkeys).1
      rw [List.map_append]
      exact List.mem_append_left _ hm
    have hinsert : ((m.insert e.1 e.2).entries ++ rest).Perm (m.entries ++ e :: rest) :=
      ((perm_insert hnew).append_right rest).trans hall.symm
    have hrest : (((m.insert e.1 e.2).entries ++ rest).map Prod.fst).Nodup :=
      (hinsert.map Prod.fst).nodup_iff.mpr h
    exact (ih hrest).trans hinsert

/-- A map is made of its entries. -/
theorem ofList_entries (m : KeyMap α) : ofList m.entries = m :=
  eq_of_perm (perm_insertAll (m := .empty) m.nodup_keys)

/-! Looking keys up -/

theorem find?_cons {e : String × α} {l : List (String × α)} :
    (e :: l).find? (fun e => e.1 == key) =
      if e.1 = key then some e else l.find? fun e => e.1 == key := by
  by_cases h : e.1 = key
  · rw [if_pos h]
    exact List.find?_cons_of_pos (beq_iff_eq.mpr h)
  · rw [if_neg h]
    exact List.find?_cons_of_neg fun he => h (eq_of_beq he)

/-- What is found under a key is the one entry that it has. -/
theorem get?_eq_some : m.get? key = some value ↔ (key, value) ∈ m.entries := by
  constructor
  · intro h
    obtain ⟨⟨k, v⟩, he, rfl⟩ := Option.map_eq_some_iff.mp h
    obtain rfl : k = key := by simpa using List.find?_some he
    exact List.mem_of_find?_eq_some he
  · intro h
    have hsome : (m.entries.find? fun e => e.1 == key).isSome = true :=
      List.find?_isSome.mpr ⟨_, h, beq_self_eq_true key⟩
    obtain ⟨e, he⟩ := Option.isSome_iff_exists.mp hsome
    -- no other entry has the key
    have hkey : e.1 = key := by simpa using List.find?_some he
    have heq : e = (key, value) :=
      List.inj_on_of_nodup_map m.nodup_keys (List.mem_of_find?_eq_some he) h hkey
    rw [get?, he, heq]
    rfl

theorem mem_keys : key ∈ m.keys ↔ (m.get? key).isSome = true := by
  rw [keys, ← contains_eq_true, contains]

/-- A map is what its keys lead to. -/
theorem ext_get? {a b : KeyMap α} (h : ∀ key, a.get? key = b.get? key) : a = b := by
  have hnodup (m : KeyMap α) : m.entries.Nodup := m.nodup_keys.of_map _
  apply eq_of_perm
  apply (List.perm_ext_iff_of_nodup (hnodup a) (hnodup b)).mpr
  intro e
  rw [← get?_eq_some, ← get?_eq_some, h]

theorem find?_insertEntry {l : List (String × α)} {k : String} :
    (insertEntry key value l).find? (fun e => e.1 == k) =
      if key = k then some (key, value) else l.find? fun e => e.1 == k := by
  induction l with
  | nil => exact find?_cons
  | cons head rest ih =>
    rw [insertEntry]
    split
    · exact find?_cons
    split
    · -- the entry takes the place of the one with its key
      rename_i heq
      rw [find?_cons, find?_cons, ← heq]
      split
      · rfl
      · rfl
    · rename_i hne
      rw [find?_cons, find?_cons, ih]
      by_cases hk : key = k
      · have hhead : ¬ head.1 = k := fun he => hne (hk.trans he.symm)
        rw [if_neg hhead]
        simp only [hk, ↓reduceIte]
      · simp only [hk, ↓reduceIte]

theorem get?_insert {k : String} :
    (m.insert key value).get? k = if key = k then some value else m.get? k := by
  rw [get?, insert, find?_insertEntry]
  split
  · rfl
  · rfl

/-- What a key leads to was inserted for it, or was there before. -/
theorem mem_of_get?_insertAll {l : List (String × α)} (h : (m.insertAll l).get? key = some value) :
    (key, value) ∈ l ∨ m.get? key = some value := by
  induction l generalizing m with
  | nil => exact .inr h
  | cons e rest ih =>
    obtain hrest | hm := ih h
    · exact .inl (List.mem_cons_of_mem e hrest)
    · rw [get?_insert] at hm
      split at hm
      · rename_i hkey
        cases hm
        exact .inl (hkey ▸ List.mem_cons_self)
      · exact .inr hm

theorem mem_of_get?_ofList {l : List (String × α)} (h : (ofList l).get? key = some value) :
    (key, value) ∈ l := (mem_of_get?_insertAll h).resolve_right nofun

/-- Of entries whose keys are all different each one is found. -/
theorem get?_ofList {l : List (String × α)} (hl : (l.map Prod.fst).Nodup) (h : (key, value) ∈ l) :
    (ofList l).get? key = some value :=
  get?_eq_some.mpr ((perm_insertAll (m := .empty) hl).mem_iff.mpr h)

/-- Of several entries with a key the last one stands. -/
theorem get?_insertAll {l : List (String × α)} : (m.insertAll l).get? key =
    ((l.reverse.find? fun e => e.1 == key).map (·.2)).or (m.get? key) := by
  induction l generalizing m with
  | nil => rfl
  | cons e rest ih =>
    have hstep : (m.insertAll (e :: rest)).get? key =
        ((m.insert e.1 e.2).insertAll rest).get? key := rfl
    rw [hstep, ih, get?_insert, List.reverse_cons, List.find?_append, find?_cons]
    cases rest.reverse.find? fun e => e.1 == key with
    | some x => rfl
    | none =>
      by_cases hkey : e.1 = key
      · simp only [if_pos hkey, Option.none_or, Option.map_some, Option.some_or, Option.map_none]
      · simp only [if_neg hkey, List.find?_nil, Option.none_or, Option.map_none]

theorem get?_ofList_eq_find? {l : List (String × α)} :
    (ofList l).get? key = (l.reverse.find? fun e => e.1 == key).map (·.2) :=
  get?_insertAll.trans Option.or_none

/-- All entries of a map are found on top of another. -/
theorem get?_overlay {top : KeyMap α} :
    (m.overlay top).get? key = (top.get? key).or (m.get? key) := by
  rw [overlay, get?_insertAll, ← get?_ofList_eq_find?, ofList_entries]

/-- An entry that may be missing leaves all other keys as they are. -/
theorem get?_elim_insert {o : Option α} {k : String} :
    (o.elim m (m.insert key)).get? k = if key = k then o.or (m.get? k) else m.get? k := by
  cases o with
  | none => exact (ite_self _).symm
  | some v => exact get?_insert

theorem get?_filter {keep : String → α → Bool} :
    (m.filter keep).get? key = (m.get? key).filter (keep key) := by
  apply Option.ext
  intro v
  rw [Option.filter_eq_some_iff, get?_eq_some, get?_eq_some, filter, List.mem_filter]

theorem get?_erase {k : String} : (m.erase key).get? k = if key = k then none else m.get? k := by
  rw [erase, get?_filter]
  by_cases hk : key = k
  · rw [if_pos hk, hk, bne_self_eq_false]
    cases m.get? k with
    | none => rfl
    | some v => rfl
  · rw [if_neg hk, bne_iff_ne.mpr (Ne.symm hk)]
    cases m.get? k with
    | none => rfl
    | some v => rfl

/-- Erasing keys takes out just these. -/
theorem get?_foldl_erase (keys : List String) :
    (keys.foldl erase m).get? key = if key ∈ keys then none else m.get? key := by
  induction keys generalizing m with
  | nil => exact (if_neg List.not_mem_nil).symm
  | cons k rest ih =>
    rw [List.foldl_cons, ih, get?_erase]
    by_cases hrest : key ∈ rest
    · rw [if_pos hrest, if_pos (List.mem_cons_of_mem k hrest)]
    · by_cases hk : k = key
      · rw [if_neg hrest, if_pos hk, if_pos (hk ▸ List.mem_cons_self)]
      · have hne : key ∉ k :: rest := by
          rw [List.mem_cons, not_or]
          exact ⟨Ne.symm hk, hrest⟩
        rw [if_neg hrest, if_neg hk, if_neg hne]

theorem keys_map {β : Type} {f : α → β} : (m.map f).keys = m.keys := by
  rw [keys, map, List.map_map]
  rfl

theorem get?_map {β : Type} {f : α → β} : (m.map f).get? key = (m.get? key).map f := by
  rw [get?, map, List.find?_map, Option.map_map, get?, Option.map_map]
  rfl

/-- Values may be changed before or after they are put in. -/
theorem map_ofList {β : Type} {f : α → β} {l : List (String × α)} :
    (ofList l).map f = ofList (l.map fun e => (e.1, f e.2)) := by
  apply ext_get?
  intro key
  rw [get?_map, get?_ofList_eq_find?, get?_ofList_eq_find?, ← List.map_reverse, List.find?_map,
    Option.map_map, Option.map_map]
  rfl

end RemoteCall.KeyMap
