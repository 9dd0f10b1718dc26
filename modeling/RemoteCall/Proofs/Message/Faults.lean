import RemoteCall.Proofs.Message.Layout
import RemoteCall.Proofs.Text.Split

/-! Why a header cannot be read.

With true lengths a frame is refused as a request for the texts of its header alone: a separator is
missing, some bytes are no text, or a key stands twice. All that stands before the fault can be
read. -/
namespace RemoteCall.Request
variable {b : UInt8} {bytes field rest : List UInt8} {m : Malformed} {frame : ByteArray}

/-- Why the next entry cannot be read, behind entries with these keys. -/
inductive EntryFault (keys : List String) : List UInt8 → Malformed → Prop
  | unterminated {rest : List UInt8} (hne : rest ≠ []) (hend : splitter ∉ rest) :
    EntryFault keys rest .entryUnterminated
  | withoutValue {entry rest : List UInt8} (hend : splitter ∉ entry)
    (hpair : pairSplitter ∉ entry) :
    EntryFault keys (entry ++ splitter :: rest) .entryWithoutValue
  | text {rest : List UInt8} {fault : String} (h : ∀ s, rest ≠ utf8 s) :
    EntryFault keys rest (.text fault)
  | repeatedKey {e : String × String} {rest : List UInt8} (he : IsEntry e) (h : e.1 ∈ keys) :
    EntryFault keys (entryBytes e ++ rest) (.repeatedKey e.1)

inductive HeaderFault : List UInt8 → Malformed → Prop
  | service {bytes : List UInt8} (hend : splitter ∉ bytes) :
    HeaderFault bytes (.unterminated "service name")
  | method {service : String} {rest : List UInt8} (hs : splitter ∉ utf8 service)
    (hend : splitter ∉ rest) : HeaderFault (utf8 service ++ splitter :: rest)
      (.unterminated "method")
  | text {bytes : List UInt8} {fault : String} (h : ∀ s, bytes ≠ utf8 s) :
    HeaderFault bytes (.text fault)
  | entry {l : Layout} {rest : List UInt8} {m : Malformed} (hl : l.IsReadable)
    (h : EntryFault (l.entries.map Prod.fst) rest m) : HeaderFault (l.bytes ++ rest) m

theorem EntryFault.mono {keys keys' : List String} (h : EntryFault keys rest m)
    (hk : keys ⊆ keys') : EntryFault keys' rest m := by
  cases h with
  | unterminated hne hend => exact .unterminated hne hend
  | withoutValue hend hpair => exact .withoutValue hend hpair
  | text h => exact .text h
  | repeatedKey he h => exact .repeatedKey he (hk h)

theorem cut_eq_none : cut b bytes = none ↔ b ∉ bytes := by
  constructor
  · intro h hb
    obtain ⟨first, rest, rfl, hfirst⟩ := List.eq_append_cons_of_mem hb
    rw [cut_append hfirst] at h
    cases h
  · intro h
    cases hcut : cut b bytes with
    | none => rfl
    | some x =>
      obtain ⟨-, rfl⟩ := cut_eq_some.mp hcut
      exact absurd (List.mem_append_right _ List.mem_cons_self) h

theorem readText_eq_error (h : readText bytes = .error m) :
    (∃ fault, m = .text fault) ∧ ∀ s, bytes ≠ utf8 s := by
  constructor
  · unfold readText at h
    split at h
    · cases h
    · cases h
      exact ⟨_, rfl⟩
  · rintro s rfl
    rw [readText_utf8] at h
    cases h

/-- Bytes that are no text make no text together with others, across a separator. -/
theorem ne_utf8_append (hb : b < 128) (h : ∀ s, field ≠ utf8 s) (s : String) :
    field ++ b :: rest ≠ utf8 s := by
  intro heq
  obtain ⟨s₁, -, hfield, -⟩ := utf8_split hb heq.symm
  exact h s₁ hfield

theorem append_ne_utf8 (hb : b < 128) (h : ∀ s, rest ≠ utf8 s) (s : String) :
    field ++ b :: rest ≠ utf8 s := by
  intro heq
  obtain ⟨-, s₂, -, hrest⟩ := utf8_split hb heq.symm
  exact h s₂ hrest

/-- A field is refused because its end is missing, or because it is no text. -/
theorem readField_eq_error {name : String} (h : readField name bytes = .error m) :
    (m = .unterminated name ∧ splitter ∉ bytes) ∨ (∃ fault, m = .text fault) ∧
    ∀ s, bytes ≠ utf8 s := by
  unfold readField at h
  split at h
  · rename_i hcut
    cases h
    exact .inl ⟨rfl, cut_eq_none.mp hcut⟩
  · rename_i field rest hcut
    obtain ⟨-, rfl⟩ := cut_eq_some.mp hcut
    rcases bind_eq_error.mp h with h | ⟨s, -, h⟩
    · obtain ⟨hm, hfield⟩ := readText_eq_error h
      exact .inr ⟨hm, ne_utf8_append (by decide) hfield⟩
    · cases h

/-- An entry is refused because nothing parts it, or because a part is no text. -/
theorem readEntry_eq_error (h : readEntry bytes = .error m) :
    (m = .entryWithoutValue ∧ pairSplitter ∉ bytes) ∨
      (∃ fault, m = .text fault) ∧ ∀ s, bytes ≠ utf8 s := by
  unfold readEntry at h
  split at h
  · rename_i hcut
    cases h
    exact .inl ⟨rfl, cut_eq_none.mp hcut⟩
  · rename_i key value hcut
    obtain ⟨-, rfl⟩ := cut_eq_some.mp hcut
    rcases bind_eq_error.mp h with h | ⟨k, -, h⟩
    · obtain ⟨hm, hkey⟩ := readText_eq_error h
      exact .inr ⟨hm, ne_utf8_append (by decide) hkey⟩
    rcases bind_eq_error.mp h with h | ⟨v, -, h⟩
    · obtain ⟨hm, hvalue⟩ := readText_eq_error h
      exact .inr ⟨hm, append_ne_utf8 (by decide) hvalue⟩
    · cases h

/-- What stops the reading of entries stands behind entries that were read. -/
theorem readEntries_eq_error {known : Metadata} (h : readEntries known bytes = .error m) :
    ∃ l rest, bytes = l.flatMap entryBytes ++ rest ∧ (∀ e ∈ l, IsEntry e) ∧
      ((known.entries ++ l).map Prod.fst).Nodup ∧
      EntryFault ((known.entries ++ l).map Prod.fst) rest m := by
  have hnone (known : Metadata) : ((known.entries ++ []).map Prod.fst).Nodup := by
    rw [List.append_nil]
    exact known.nodup_keys
  -- along the reading, one entry after the other
  fun_induction readEntries known bytes with
  | case1 => cases h
  | case2 known bytes hne hcut =>
    cases h
    have hbytes : bytes ≠ [] := fun he => hne (List.isEmpty_iff.mpr he)
    exact ⟨[], bytes, rfl, List.forall_mem_nil _, hnone known,
      .unterminated hbytes (cut_eq_none.mp hcut)⟩
  | case3 known bytes hne entry rest hcut m' hread =>
    cases h
    obtain ⟨hend, rfl⟩ := cut_eq_some.mp hcut
    refine ⟨[], _, rfl, List.forall_mem_nil _, hnone known, ?_⟩
    rcases readEntry_eq_error hread with ⟨rfl, hpair⟩ | ⟨⟨fault, rfl⟩, hentry⟩
    · exact .withoutValue hend hpair
    · exact .text (ne_utf8_append (by decide) hentry)
  | case4 known bytes hne entry rest hcut key value hread hknown =>
    cases h
    obtain ⟨hend, rfl⟩ := cut_eq_some.mp hcut
    obtain ⟨hpair, rfl⟩ := readEntry_eq_ok.mp hread
    refine ⟨[], entryBytes (key, value) ++ rest, ?_, List.forall_mem_nil _, hnone known, ?_⟩
    · simp only [entryBytes, List.flatMap_nil, List.append_assoc, List.cons_append, List.nil_append]
    · rw [List.append_nil]
      exact .repeatedKey (isEntry_of_not_mem hend hpair) (KeyMap.contains_eq_true.mp hknown)
  | case5 known bytes hne entry rest hcut key value hread hnew ih =>
    obtain ⟨l, last, rfl, hl, hnodup, hfault⟩ := ih h
    obtain ⟨hend, rfl⟩ := cut_eq_some.mp hcut
    obtain ⟨hpair, rfl⟩ := readEntry_eq_ok.mp hread
    have hperm : ((known.insert key value).entries ++ l).Perm
        (known.entries ++ (key, value) :: l) :=
      perm_insert_append (Bool.not_eq_true _ ▸ hnew)
    have hkeys := hperm.map Prod.fst
    refine ⟨(key, value) :: l, last, ?_, ?_, hkeys.nodup_iff.mp hnodup, hfault.mono hkeys.subset⟩
    · simp only [flatMap_entryBytes_cons, List.append_assoc, List.cons_append]
    · exact List.forall_mem_cons.mpr ⟨isEntry_of_not_mem hend hpair, hl⟩

/-- A header is refused for its texts, or for its lengths. -/
theorem decode?_eq_error (h : decode? frame = .error m) :
    headerLength frame = .error m ∨ ∃ n, headerLength frame = .ok n ∧
      HeaderFault (frame.extract headSize n).data.toList m := by
  rcases bind_eq_error.mp h with h | ⟨n, hn, h⟩
  · exact .inl h
  refine .inr ⟨n, hn, ?_⟩
  rcases bind_eq_error.mp h with h | ⟨⟨service, rest⟩, hservice, h⟩
  · rcases readField_eq_error h with ⟨rfl, hend⟩ | ⟨⟨fault, rfl⟩, htext⟩
    · exact .service hend
    · exact .text htext
  obtain ⟨hs, hbytes⟩ := readField_eq_ok.mp hservice
  rw [hbytes]
  rcases bind_eq_error.mp h with h | ⟨⟨method, more⟩, hmethod, h⟩
  · rcases readField_eq_error h with ⟨rfl, hend⟩ | ⟨⟨fault, rfl⟩, htext⟩
    · exact .method hs hend
    · exact .text (append_ne_utf8 (by decide) htext)
  obtain ⟨hm, hrest⟩ := readField_eq_ok.mp hmethod
  rcases bind_eq_error.mp h with h | ⟨metadata, -, h⟩
  · obtain ⟨entries, last, rfl, hentries, hkeys, hfault⟩ := readEntries_eq_error h
    -- the texts in front of the fault are those of a layout
    have hl : Layout.IsReadable ⟨service, method, entries⟩ := ⟨hs, hm, hentries, hkeys⟩
    have heq : utf8 service ++ splitter :: rest =
        Layout.bytes ⟨service, method, entries⟩ ++ last := by
      simp only [hrest, Layout.bytes, List.append_assoc, List.cons_append]
    rw [heq]
    exact .entry hl hfault
  · cases h

end RemoteCall.Request
