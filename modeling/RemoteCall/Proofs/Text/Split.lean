import RemoteCall.Proofs.Text.Order

/-! Texts cut at an ASCII byte.

No character but an ASCII one has a byte below 128. So where such a byte stands in a text, what
comes before it and what comes behind it are texts too. -/
namespace RemoteCall
variable {b : UInt8} {x y : List UInt8}

theorem encodeChar_of_mem {c : Char} (hb : b < 128) (h : b ∈ String.utf8EncodeChar c) :
    String.utf8EncodeChar c = [b] ∧ c.toNat = b.toNat := by
  have hb : b.toNat < 128 := hb
  -- in the longer forms every byte has its highest bit set
  unfold String.utf8EncodeChar at h ⊢
  dsimp only at h ⊢
  split_ifs at h ⊢ with h₁ h₂ h₃
  · obtain rfl := List.mem_singleton.mp h
    refine ⟨rfl, ?_⟩
    rw [UInt8.toNat_ofNat', Nat.mod_eq_of_lt (by omega)]
    rfl
  all_goals
    simp only [List.mem_cons, List.not_mem_nil, or_false, ← UInt8.toNat_inj,
      UInt8.toNat_ofNat'] at h
    omega

/-- An ASCII byte of a text is one of its characters. -/
theorem exists_of_mem_utf8 {s : String} (hb : b < 128) (h : b ∈ utf8 s) :
    ∃ c ∈ s.toList, c.toNat = b.toNat := by
  rw [utf8_eq_flatMap] at h
  obtain ⟨c, hc, hmem⟩ := List.mem_flatMap.mp h
  exact ⟨c, hc, (encodeChar_of_mem hb hmem).2⟩

/-- A byte below 128 stands for a character of its own, so a text can be parted there. -/
theorem flatMap_encodeChar_split {l : List Char} (hb : b < 128)
    (h : l.flatMap String.utf8EncodeChar = x ++ b :: y) :
    ∃ l₁ l₂ : List Char, x = l₁.flatMap String.utf8EncodeChar ∧
    y = l₂.flatMap String.utf8EncodeChar := by
  -- on the characters, up to the one that the byte is
  induction l generalizing x with
  | nil => simp at h
  | cons c rest ih =>
    rw [List.flatMap_cons] at h
    rcases List.append_eq_append_iff.mp h with ⟨z, hx, hrest⟩ | ⟨z, hc, hy⟩
    · obtain ⟨l₁, l₂, hz, hy⟩ := ih hrest
      refine ⟨c :: l₁, l₂, ?_, hy⟩
      rw [hx, hz, List.flatMap_cons]
    · cases z with
      | nil =>
        obtain ⟨l₁, l₂, hz, hy⟩ := ih (x := []) hy.symm
        refine ⟨[c], l₂, ?_, hy⟩
        rw [← List.append_nil x, ← hc, List.flatMap_cons, List.flatMap_nil, List.append_nil]
      | cons b' z =>
        obtain ⟨rfl, htail⟩ := List.cons.inj hy
        have hmem : b ∈ String.utf8EncodeChar c := hc ▸ List.mem_append_right x List.mem_cons_self
        rw [(encodeChar_of_mem hb hmem).1, List.singleton_eq_append_iff] at hc
        rcases hc with ⟨rfl, hz⟩ | ⟨-, hz⟩
        · obtain rfl : z = [] := (List.cons.inj hz).2
          exact ⟨[], rest, rfl, htail⟩
        · cases hz

/-- A text with an ASCII byte in it is one text before the byte and one behind it. -/
theorem utf8_split {s : String} (hb : b < 128) (h : utf8 s = x ++ b :: y) :
    ∃ s₁ s₂, x = utf8 s₁ ∧ y = utf8 s₂ := by
  rw [utf8_eq_flatMap] at h
  obtain ⟨l₁, l₂, hx, hy⟩ := flatMap_encodeChar_split hb h
  refine ⟨.ofList l₁, .ofList l₂, ?_, ?_⟩
  · rw [hx, utf8_eq_flatMap, String.toList_ofList]
  · rw [hy, utf8_eq_flatMap, String.toList_ofList]

end RemoteCall
