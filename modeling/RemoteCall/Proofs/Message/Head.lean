import RemoteCall.Message.Head
import Mathlib.Data.List.GetD
import Mathlib.Tactic.SplitIfs

/-! The fixed head is read back as it was written, whatever stands after it. -/
namespace RemoteCall
variable {a b : ByteArray} {l : List UInt8} {i : Nat}

theorem byteAt_toByteArray : byteAt l.toByteArray i = l.getD i 0 := by
  unfold byteAt
  split
  · rename_i h
    rw [List.size_toByteArray] at h
    rw [List.getElem_toByteArray, List.getD_eq_getElem _ _ h]
  · rename_i h
    rw [List.size_toByteArray] at h
    rw [List.getD_eq_default _ _ (Nat.le_of_not_lt h)]

theorem byteAt_append_left (h : i < a.size) : byteAt (a ++ b) i = byteAt a i := by
  have hi : i < (a ++ b).size := by
    rw [ByteArray.size_append]
    omega
  rw [byteAt, byteAt, dif_pos h, dif_pos hi, ByteArray.getElem_append_left h]

theorem bigEndianAt_four :
    bigEndianAt a i 4 = ((((byteAt a i).toNat * 256 + (byteAt a (i + 1)).toNat) * 256 +
    (byteAt a (i + 2)).toNat) * 256 + (byteAt a (i + 3)).toNat) := by
  simp [bigEndianAt, List.range_succ]

theorem bigEndianAt_lt : bigEndianAt a i 4 < UInt32.size := by
  have h (k : Nat) : (byteAt a k).toNat < 256 := (byteAt a k).toNat_lt
  have h₀ := h i
  have h₁ := h (i + 1)
  have h₂ := h (i + 2)
  have h₃ := h (i + 3)
  rw [bigEndianAt_four]
  simp only [UInt32.size]
  omega

theorem byteAt_append_right : byteAt (a ++ b) (a.size + i) = byteAt b i := by
  have hsize : (a ++ b).size = a.size + b.size := ByteArray.size_append
  unfold byteAt
  by_cases h : i < b.size
  · rw [dif_pos h, dif_pos (by omega), ByteArray.getElem_append_right (by omega)]
    simp only [Nat.add_sub_cancel_left]
  · rw [dif_neg h, dif_neg (by omega)]

theorem bigEndianAt_append_left (h : i + 4 ≤ a.size) :
    bigEndianAt (a ++ b) i 4 = bigEndianAt a i 4 := by
  rw [bigEndianAt_four, bigEndianAt_four, byteAt_append_left (by omega),
    byteAt_append_left (by omega), byteAt_append_left (by omega), byteAt_append_left (by omega)]

theorem bigEndianAt_append_right {n : Nat} :
    bigEndianAt (a ++ b) (a.size + i) n = bigEndianAt b i n := by
  simp only [bigEndianAt, Nat.add_assoc, byteAt_append_right]

/-- The four bytes of a word give the word. -/
theorem toNat_bigEndian32 (w : UInt32) : (((((bigEndian32 w).getD 0 0).toNat * 256 +
    ((bigEndian32 w).getD 1 0).toNat) * 256 + ((bigEndian32 w).getD 2 0).toNat) * 256 +
    ((bigEndian32 w).getD 3 0).toNat) = w.toNat := by
  have hw := w.toNat_lt
  simp only [bigEndian32, List.getD_cons_zero, List.getD_cons_succ, UInt32.toNat_toUInt8,
    UInt32.toNat_shiftRight, Nat.shiftRight_eq_div_pow, UInt32.reduceToNat, Nat.reduceMod,
    Nat.reducePow]
  omega

/-- A word that stands somewhere in a byte string is read back from there. -/
theorem bigEndianAt_word (pre post : List UInt8) (w : UInt32) :
    bigEndianAt ((pre ++ bigEndian32 w ++ post).toByteArray ++ b) pre.length 4 = w.toNat := by
  have hsize : (pre ++ bigEndian32 w ++ post).toByteArray.size = pre.length + 4 + post.length := by
    rw [List.size_toByteArray, List.length_append, List.length_append]
    rfl
  -- each of the four bytes is found behind `pre`, whatever stands after the word
  have hbyte (k : Nat) (hk : k < 4) :
      byteAt ((pre ++ bigEndian32 w ++ post).toByteArray ++ b) (pre.length + k) =
        (bigEndian32 w).getD k 0 := by
    have hw : (bigEndian32 w).length = 4 := rfl
    rw [byteAt_append_left (by omega), byteAt_toByteArray, List.append_assoc,
      List.getD_append_right _ _ _ _ (Nat.le_add_right _ _), Nat.add_sub_cancel_left,
      List.getD_append _ _ _ _ (by omega)]
  rw [bigEndianAt_four, ← toNat_bigEndian32 w, ← hbyte 0 (by omega), ← hbyte 1 (by omega),
    ← hbyte 2 (by omega), ← hbyte 3 (by omega)]
  rfl

variable {header body : UInt32} {codes : Codes}

theorem size_fixedHead : (fixedHead header body codes).toByteArray.size = headSize := by
  rw [List.size_toByteArray]
  rfl

theorem header_fixedHead :
    bigEndianAt ((fixedHead header body codes).toByteArray ++ b) 0 4 = header.toNat :=
  bigEndianAt_word [] _ header

theorem body_fixedHead :
    bigEndianAt ((fixedHead header body codes).toByteArray ++ b) 4 4 = body.toNat :=
  bigEndianAt_word (bigEndian32 header) _ body

theorem codesAt_fixedHead : codesAt ((fixedHead header body codes).toByteArray ++ b) = codes := by
  have hid : bigEndianAt ((fixedHead header body codes).toByteArray ++ b) 8 4 =
      codes.messageId.toNat :=
    bigEndianAt_word (bigEndian32 header ++ bigEndian32 body) _ codes.messageId
  -- the version and the two codes are the last bytes of the head, one byte each
  have hbyte (k : Nat) (hk : k < headSize) :
      byteAt ((fixedHead header body codes).toByteArray ++ b) k =
        (fixedHead header body codes).getD k 0 := by
    rw [byteAt_append_left (by rwa [size_fixedHead]), byteAt_toByteArray]
  simp only [codesAt, hid, hbyte 12 (by decide), hbyte 13 (by decide), hbyte 14 (by decide),
    UInt32.ofNat_toNat]
  rfl

/-- The lengths of a frame that was put together with its true lengths are accepted. -/
theorem headerLength_fixedHead {fields data : ByteArray} (hh : headSize + fields.size < UInt32.size)
    (hb : data.size < UInt32.size) :
    headerLength ((fixedHead (.ofNat (headSize + fields.size))
      (.ofNat data.size) codes).toByteArray ++
      (fields ++ data)) = .ok (headSize + fields.size) := by
  have hsize : ((fixedHead (.ofNat (headSize + fields.size))
      (.ofNat data.size) codes).toByteArray ++
      (fields ++ data)).size = headSize + (fields.size + data.size) := by
    rw [ByteArray.size_append, ByteArray.size_append, size_fixedHead]
  have hheader : (UInt32.ofNat (headSize + fields.size)).toNat = headSize + fields.size :=
    UInt32.toNat_ofNat_of_lt' hh
  have hbody : (UInt32.ofNat data.size).toNat = data.size := UInt32.toNat_ofNat_of_lt' hb
  simp only [headerLength, header_fixedHead, body_fixedHead, hsize, hheader, hbody]
  rw [if_neg (by omega), if_neg (by omega), if_neg (by omega)]

/-- Exactly these lengths are accepted. -/
theorem headerLength_eq_ok {n : Nat} : headerLength a = .ok n ↔
    (headSize ≤ bigEndianAt a 0 4 ∧ bigEndianAt a 0 4 ≤ a.size ∧
      bigEndianAt a 4 4 = a.size - bigEndianAt a 0 4) ∧ n = bigEndianAt a 0 4 := by
  constructor
  · intro h
    unfold headerLength at h
    dsimp only at h
    split_ifs at h with hshort hheader hbody
    have hn := Except.ok.inj h
    refine ⟨⟨?_, ?_, ?_⟩, hn.symm⟩
    · omega
    · omega
    · omega
  · rintro ⟨⟨hhead, hsize, hbody⟩, rfl⟩
    unfold headerLength
    dsimp only
    rw [if_neg (by omega), if_neg (by omega), if_neg (by omega)]

/-- Cutting a byte string anywhere loses nothing. -/
theorem extract_append_rest (b : ByteArray) (n : Nat) :
    b.extract 0 n ++ b.extract n b.size = b := by
  rw [ByteArray.extract_append_extract, Nat.zero_min, ByteArray.extract_zero_max_size]

theorem extract_fields {head fields data : ByteArray} {n : Nat} (h : head.size = n) :
    (head ++ (fields ++ data)).extract n (n + fields.size) = fields := by
  have hn : (head ++ (fields ++ data)).extract (n + 0) (n + fields.size) =
      (fields ++ data).extract 0 fields.size := ByteArray.extract_append_size_add' h.symm
  rw [Nat.add_zero] at hn
  rw [hn, ByteArray.extract_append_eq_left rfl]

theorem extract_data {head fields data : ByteArray} {n : Nat} (h : head.size = n) :
    (head ++ (fields ++ data)).extract (n + fields.size) (n + fields.size + data.size) = data := by
  rw [Nat.add_assoc, ByteArray.extract_append_size_add' h.symm,
    ByteArray.extract_append_eq_right rfl rfl]

/-- The bytes of a word that stands somewhere are the bytes that stand there. -/
theorem bigEndian32_bigEndianAt : bigEndian32 (.ofNat (bigEndianAt a i 4)) =
    [byteAt a i, byteAt a (i + 1), byteAt a (i + 2), byteAt a (i + 3)] := by
  have h (k : Nat) : (byteAt a k).toNat < 256 := (byteAt a k).toNat_lt
  have h₀ := h i
  have h₁ := h (i + 1)
  have h₂ := h (i + 2)
  have h₃ := h (i + 3)
  have hword : (UInt32.ofNat (bigEndianAt a i 4)).toNat = bigEndianAt a i 4 :=
    UInt32.toNat_ofNat_of_lt' bigEndianAt_lt
  rw [bigEndianAt_four] at hword ⊢
  -- each byte of the word is one of the four digits that it was put together from
  simp only [bigEndian32, List.cons.injEq, ← UInt8.toNat_inj, UInt32.toNat_toUInt8,
    UInt32.toNat_shiftRight, Nat.shiftRight_eq_div_pow, UInt32.reduceToNat, Nat.reduceMod,
    Nat.reducePow, hword, and_true]
  omega

theorem toByteArray_toList : a.data.toList.toByteArray = a := by
  apply ByteArray.ext
  rw [List.data_toByteArray, Array.toArray_toList]

theorem toList_extract_zero {n : Nat} (h : n ≤ a.size) :
    (a.extract 0 n).data.toList = (List.range n).map (byteAt a) := by
  have hsize : (a.extract 0 n).size = n := by
    rw [ByteArray.size_extract, Nat.min_eq_left h, Nat.sub_zero]
  apply List.ext_getElem
  · rw [List.length_map, List.length_range]
    exact hsize
  · intro k hk hk'
    have hkn : k < n := by simpa using hk'
    rw [List.getElem_map, List.getElem_range, byteAt, dif_pos (Nat.lt_of_lt_of_le hkn h)]
    have hget : (a.extract 0 n)[k] = a[0 + k] := ByteArray.getElem_extract (hsize.symm ▸ hkn)
    simp only [Nat.zero_add] at hget
    exact hget

/-- The fixed head says all that the first bytes of a frame say. -/
theorem fixedHead_eq_extract (h : headSize ≤ a.size) :
    (fixedHead (.ofNat (bigEndianAt a 0 4)) (.ofNat (bigEndianAt a 4 4)) (codesAt a)).toByteArray =
      a.extract 0 headSize := by
  apply ByteArray.ext
  apply Array.toList_inj.mp
  rw [toList_extract_zero h, List.data_toByteArray, fixedHead, codesAt]
  dsimp only
  rw [bigEndian32_bigEndianAt, bigEndian32_bigEndianAt, bigEndian32_bigEndianAt]
  rfl

/-- Lengths are written just if each takes 32 bits at most. -/
theorem lengthWords_eq_ok {header body : Nat} {w : UInt32 × UInt32} :
    lengthWords header body = .ok w ↔ header < UInt32.size ∧ body < UInt32.size ∧
      w = (.ofNat header, .ofNat body) := by
  unfold lengthWords
  split
  · rename_i h
    exact ⟨fun he => absurd he (by simp), fun hw => absurd hw.1 (Nat.not_lt.mpr h)⟩
  · rename_i hh
    split
    · rename_i h
      exact ⟨fun he => absurd he (by simp), fun hw => absurd hw.2.1 (Nat.not_lt.mpr h)⟩
    · rename_i hb
      rw [Except.ok.injEq]
      exact ⟨fun he => ⟨Nat.lt_of_not_le hh, Nat.lt_of_not_le hb, he.symm⟩, fun hw => hw.2.2.symm⟩

theorem kind_of_lengthWords {header body : Nat} {e : Error}
    (h : lengthWords header body = .error e) : e.kind = .encode := by
  unfold lengthWords at h
  split at h
  · cases h
    rfl
  · split at h
    · cases h
      rfl
    · cases h

end RemoteCall
