import RemoteCall.Message.Request
import RemoteCall.Proofs.Data.KeyMap
import RemoteCall.Proofs.Data.Outcome
import Mathlib.Data.List.TakeWhile

/-! The variable header: fields are cut off where they were put together.

A field ends at the first byte that ends fields, and a key at the first that ends keys. So what is
read says how the bytes were put together, and only in one way. -/
namespace RemoteCall.Request
variable {b : UInt8} {first rest bytes : List UInt8} {s key value : String}

def IsPlain (s : String) : Prop := splitter ∉ utf8 s ∧ pairSplitter ∉ utf8 s

/-- A field is written just if it holds no separator. -/
theorem checkField_eq_ok {name : String} : checkField name s = .ok () ↔ IsPlain s := by
  unfold checkField IsPlain
  split
  · rename_i h
    obtain ⟨x, hx, hsep⟩ := List.any_eq_true.mp h
    refine ⟨fun he => absurd he (by simp), fun hn => ?_⟩
    rcases (Bool.or_eq_true _ _).mp hsep with he | he
    · exact absurd (beq_iff_eq.mp he ▸ hx) hn.1
    · exact absurd (beq_iff_eq.mp he ▸ hx) hn.2
  · rename_i h
    refine ⟨fun _ => ⟨fun hx => h ?_, fun hx => h ?_⟩, fun _ => rfl⟩
    · exact List.any_eq_true.mpr ⟨splitter, hx, rfl⟩
    · exact List.any_eq_true.mpr ⟨pairSplitter, hx, rfl⟩

theorem kind_of_checkField {name : String} {e : Error} (h : checkField name s = .error e) :
    e.kind = .encode := by
  unfold checkField at h
  split at h
  · cases h
    rfl
  · cases h

theorem cut_append (h : b ∉ first) : cut b (first ++ b :: rest) = some (first, rest) := by
  have hp : ∀ x ∈ first, (x != b) = true := by
    intro x hx
    have hne : x ≠ b := fun he => h (he ▸ hx)
    simpa using hne
  rw [cut, List.dropWhile_append_of_pos hp, List.takeWhile_append_of_pos hp]
  simp

/-- Bytes are cut where the separator stands first. -/
theorem cut_eq_some : cut b bytes = some (first, rest) ↔ b ∉ first ∧
    bytes = first ++ b :: rest := by
  constructor
  · intro h
    have hsplit := List.takeWhile_append_dropWhile (p := (· != b)) (l := bytes)
    have hb : b ∉ bytes.takeWhile (· != b) := by
      intro hm
      have hne := List.mem_takeWhile_imp hm
      simp at hne
    unfold cut at h
    split at h
    · cases h
    · rename_i x more hdrop
      obtain ⟨rfl, rfl⟩ := Prod.mk.inj (Option.some.inj h)
      -- what stops the first part is the byte itself
      have hx : (x != b) = false := by
        have hne : bytes.dropWhile (· != b) ≠ [] := by simp [hdrop]
        have hhead := List.head_dropWhile_not (· != b) hne
        simpa only [hdrop, List.head_cons] using hhead
      obtain rfl : x = b := by simpa using hx
      exact ⟨hb, by rw [← hdrop, hsplit]⟩
  · rintro ⟨h, rfl⟩
    exact cut_append h

/-- Two texts before the same byte, which neither holds. -/
theorem append_cons_inj {first' rest' : List UInt8} (h : b ∉ first) (h' : b ∉ first') :
    first ++ b :: rest = first' ++ b :: rest' ↔ first = first' ∧ rest = rest' := by
  constructor
  · intro he
    have hcut : cut b (first ++ b :: rest) = some (first', rest') := by
      rw [he]
      exact cut_append h'
    rw [cut_append h] at hcut
    exact Prod.mk.inj (Option.some.inj hcut)
  · rintro ⟨rfl, rfl⟩
    rfl

theorem length_utf8 : (utf8 s).length = s.utf8ByteSize := rfl

theorem fromUTF8?_toUTF8 : String.fromUTF8? s.toUTF8 = some s := by
  rw [String.fromUTF8?, dif_pos (show s.toUTF8.IsValidUTF8 from s.isValidUTF8)]
  rfl

theorem readText_utf8 : readText (utf8 s) = .ok s := by
  have hs : (utf8 s).toByteArray = s.toUTF8 := by
    apply ByteArray.ext
    rw [List.data_toByteArray, utf8, Array.toArray_toList]
  rw [readText, hs, Utf8.decode, fromUTF8?_toUTF8]

/-- A text is read from its own bytes and no others. -/
theorem readText_eq_ok : readText bytes = .ok s ↔ bytes = utf8 s := by
  constructor
  · intro h
    unfold readText Utf8.decode String.fromUTF8? at h
    split_ifs at h with hvalid
    obtain rfl := Except.ok.inj h
    change bytes = bytes.toByteArray.data.toList
    rw [List.data_toByteArray]
  · rintro rfl
    exact readText_utf8

/-- A field is read up to the separator that ends it. -/
theorem readField_eq_ok {name : String} : readField name bytes = .ok (s, rest) ↔
    splitter ∉ utf8 s ∧ bytes = utf8 s ++ splitter :: rest := by
  constructor
  · intro h
    unfold readField at h
    split at h
    · cases h
    · rename_i field more hcut
      obtain ⟨text, htext, hrest⟩ := bind_eq_ok.mp h
      obtain ⟨rfl, rfl⟩ := Prod.mk.inj (Except.ok.inj hrest)
      obtain ⟨hfield, rfl⟩ := cut_eq_some.mp hcut
      obtain rfl := readText_eq_ok.mp htext
      exact ⟨hfield, rfl⟩
  · rintro ⟨h, rfl⟩
    rw [readField, cut_append h]
    exact bind_eq_ok.mpr ⟨s, readText_utf8, rfl⟩

/-- An entry is read by the first byte that parts it. -/
theorem readEntry_eq_ok : readEntry bytes = .ok (key, value) ↔
    pairSplitter ∉ utf8 key ∧ bytes = utf8 key ++ pairSplitter :: utf8 value := by
  constructor
  · intro h
    unfold readEntry at h
    split at h
    · cases h
    · rename_i left right hcut
      obtain ⟨k, hk, h⟩ := bind_eq_ok.mp h
      obtain ⟨v, hv, h⟩ := bind_eq_ok.mp h
      obtain ⟨rfl, rfl⟩ := Prod.mk.inj (Except.ok.inj h)
      obtain ⟨hleft, rfl⟩ := cut_eq_some.mp hcut
      obtain rfl := readText_eq_ok.mp hk
      obtain rfl := readText_eq_ok.mp hv
      exact ⟨hleft, rfl⟩
  · rintro ⟨h, rfl⟩
    rw [readEntry, cut_append h]
    refine bind_eq_ok.mpr ⟨key, readText_utf8, ?_⟩
    exact bind_eq_ok.mpr ⟨value, readText_utf8, rfl⟩

def PlainEntries (l : List (String × String)) : Prop := ∀ e ∈ l, IsPlain e.1 ∧ IsPlain e.2

theorem checkEntries_eq_ok {l : List (String × String)} :
    checkEntries l = .ok () ↔ PlainEntries l := by
  induction l with
  | nil => exact ⟨fun _ e he => absurd he List.not_mem_nil, fun _ => rfl⟩
  | cons e rest ih =>
    simp only [checkEntries, seq_eq_ok, checkField_eq_ok, ih, PlainEntries, List.forall_mem_cons,
      and_assoc]

theorem kind_of_checkEntries {l : List (String × String)} {e : Error}
    (h : checkEntries l = .error e) : e.kind = .encode := by
  induction l with
  | nil => cases h
  | cons a rest ih =>
    rw [checkEntries, bind_eq_error] at h
    rcases h with h | ⟨_, -, h⟩
    · exact kind_of_checkField h
    · rcases bind_eq_error.mp h with h | ⟨_, -, h⟩
      · exact kind_of_checkField h
      · exact ih h

/-- An entry that is read back as it was written: the separators end the key and the value where
they end. -/
structure IsEntry (e : String × String) : Prop where
  key : splitter ∉ utf8 e.1
  key_pair : pairSplitter ∉ utf8 e.1
  value : splitter ∉ utf8 e.2

theorem IsEntry.not_mem {e : String × String} (h : IsEntry e) :
    splitter ∉ utf8 e.1 ++ pairSplitter :: utf8 e.2 := by
  rw [List.mem_append, List.mem_cons]
  rintro (hm | hm | hm)
  · exact h.key hm
  · exact absurd hm (by decide)
  · exact h.value hm

theorem isEntry_of_not_mem (hend : splitter ∉ utf8 key ++ pairSplitter :: utf8 value)
    (hpair : pairSplitter ∉ utf8 key) : IsEntry (key, value) := by
  refine ⟨fun hm => hend ?_, hpair, fun hm => hend ?_⟩
  · exact List.mem_append_left _ hm
  · exact List.mem_append_right _ (List.mem_cons_of_mem _ hm)

/-- The entry that was read goes from what is to come to what is known. -/
theorem perm_insert_append {known : Metadata} {l : List (String × String)}
    (h : known.contains key = false) :
    ((known.insert key value).entries ++ l).Perm (known.entries ++ (key, value) :: l) :=
  ((KeyMap.perm_insert h).append_right l).trans List.perm_middle.symm

theorem flatMap_entryBytes_cons (e : String × String) (l : List (String × String)) :
    (e :: l).flatMap entryBytes =
      (utf8 e.1 ++ pairSplitter :: utf8 e.2) ++ splitter :: l.flatMap entryBytes := by
  simp [entryBytes]

/-- Entries whose keys are all new are read one after the other. -/
theorem readEntries_flatMap {known : Metadata} {l : List (String × String)} (h : ∀ e ∈ l, IsEntry e)
    (hk : ((known.entries ++ l).map Prod.fst).Nodup) :
    readEntries known (l.flatMap entryBytes) = .ok (known.insertAll l) := by
  -- on the entries that are still to come; what is known grows by the one that was read
  induction l generalizing known with
  | nil =>
    rw [List.flatMap_nil, readEntries, List.isEmpty_nil, if_pos rfl]
    rfl
  | cons e rest ih =>
    have he : IsEntry e := h e List.mem_cons_self
    have hnew : known.contains e.1 = false := by
      apply KeyMap.contains_eq_false.mpr
      intro hm
      have hkeys := (List.perm_middle.map Prod.fst).nodup_iff.mp hk
      apply (List.nodup_cons.mp hkeys).1
      rw [List.map_append]
      exact List.mem_append_left _ hm
    have hrest : (((known.insert e.1 e.2).entries ++ rest).map Prod.fst).Nodup :=
      ((perm_insert_append hnew).map Prod.fst).nodup_iff.mpr hk
    rw [flatMap_entryBytes_cons, readEntries, if_neg (by simp)]
    split
    · rename_i hcut
      rw [cut_append he.not_mem] at hcut
      cases hcut
    · rename_i entry more hcut
      rw [cut_append he.not_mem] at hcut
      cases hcut
      have hentry : readEntry (utf8 e.1 ++ pairSplitter :: utf8 e.2) = .ok (e.1, e.2) :=
        readEntry_eq_ok.mpr ⟨he.key_pair, rfl⟩
      rw [hentry]
      dsimp only
      rw [if_neg (by simp [hnew]), ih (fun e he => h e (List.mem_cons_of_mem _ he)) hrest]
      rfl

/-- Whatever is read as entries was put together from them. -/
theorem exists_of_readEntries {known m : Metadata} (h : readEntries known bytes = .ok m) :
    ∃ l, bytes = l.flatMap entryBytes ∧ (∀ e ∈ l, IsEntry e) ∧
      ((known.entries ++ l).map Prod.fst).Nodup := by
  -- along the reading, one entry after the other
  fun_induction readEntries known bytes with
  | case1 known bytes hempty =>
    obtain rfl := List.isEmpty_iff.mp hempty
    refine ⟨[], rfl, nofun, ?_⟩
    rw [List.append_nil]
    exact known.nodup_keys
  | case2 => cases h
  | case3 => cases h
  | case4 => cases h
  | case5 known bytes hne entry rest hcut key value hread hnew ih =>
    obtain ⟨l, rfl, hl, hnodup⟩ := ih h
    obtain ⟨hend, rfl⟩ := cut_eq_some.mp hcut
    obtain ⟨hpair, rfl⟩ := readEntry_eq_ok.mp hread
    have hperm : ((known.insert key value).entries ++ l).Perm
        (known.entries ++ (key, value) :: l) :=
      perm_insert_append (Bool.not_eq_true _ ▸ hnew)
    have hkeys := hperm.map Prod.fst
    refine ⟨(key, value) :: l, (flatMap_entryBytes_cons (key, value) l).symm, ?_,
      hkeys.nodup_iff.mp hnodup⟩
    exact List.forall_mem_cons.mpr ⟨isEntry_of_not_mem hend hpair, hl⟩

/-- Bytes are read as entries exactly if they were put together from entries with keys of their own.
-/
theorem readEntries_eq_ok {m : Metadata} : readEntries .empty bytes = .ok m ↔
    ∃ l, bytes = l.flatMap entryBytes ∧ (∀ e ∈ l, IsEntry e) ∧ (l.map Prod.fst).Nodup ∧
      m.entries.Perm l := by
  constructor
  · intro h
    obtain ⟨l, rfl, hl, hk⟩ := exists_of_readEntries h
    rw [readEntries_flatMap hl hk] at h
    obtain rfl := Except.ok.inj h
    exact ⟨l, rfl, hl, hk, KeyMap.perm_insertAll hk⟩
  · rintro ⟨l, rfl, hl, hk, hm⟩
    have heq : m = KeyMap.insertAll .empty l :=
      KeyMap.eq_of_perm (hm.trans (KeyMap.perm_insertAll (m := .empty) hk).symm)
    rw [heq]
    exact readEntries_flatMap hl hk

end RemoteCall.Request
