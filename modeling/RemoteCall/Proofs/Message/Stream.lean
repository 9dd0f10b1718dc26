import RemoteCall.Message.Stream
import RemoteCall.Proofs.Message.Head

/-! Frames that follow one another on a stream are read one after the other. -/
namespace RemoteCall.Stream
variable {f g p q rest a b : ByteArray} {n start : Nat} {m : Malformed}

structure IsFrame (f : ByteArray) : Prop where
  headSize_le : headSize ≤ bigEndianAt f 0 4
  size_eq : f.size = bigEndianAt f 0 4 + bigEndianAt f 4 4

theorem IsFrame.headSize_le_size (h : IsFrame f) : headSize ≤ f.size := by
  rw [h.size_eq]
  exact Nat.le_trans h.headSize_le (Nat.le_add_right _ _)

/-- What fits a frame fits the words for its lengths. -/
theorem lt_of_add_le_maxFrame {m n : Nat} (h : m + n ≤ maxFrame) :
    m < UInt32.size ∧ n < UInt32.size := by
  simp only [maxFrame] at h
  simp only [UInt32.size]
  omega

/-- In front of anything else a frame is read whole, unless it is too large. -/
theorem readFrame_append (h : IsFrame f) :
    readFrame (f ++ rest) 0 = if maxFrame < f.size then .error .tooLong else .ok (f, f.size) := by
  have hsize := h.headSize_le_size
  have hhead : bigEndianAt (f ++ rest) 0 4 = bigEndianAt f 0 4 :=
    bigEndianAt_append_left (by simp only [headSize] at hsize; omega)
  have hbody : bigEndianAt (f ++ rest) 4 4 = bigEndianAt f 4 4 :=
    bigEndianAt_append_left (by simp only [headSize] at hsize; omega)
  have hle := h.headSize_le
  have hfit : f.size ≤ (f ++ rest).size := by
    rw [ByteArray.size_append]
    omega
  simp only [readFrame, Nat.zero_add, hhead, hbody, ← h.size_eq]
  rw [if_neg (by simp only [headSize, lengthsSize] at *; omega), if_neg (by omega)]
  split
  · rfl
  · rw [if_neg (by omega), ByteArray.extract_append_eq_left rfl]

/-- A frame is read whole. -/
theorem readFrame_self (h : IsFrame f) (hm : f.size ≤ maxFrame) :
    readFrame f 0 = .ok (f, f.size) := by
  have happend := @readFrame_append f .empty h
  rwa [ByteArray.append_empty, if_neg (Nat.not_lt.mpr hm)] at happend

/-- No frame is read before all of it is there. -/
theorem eq_of_readFrame (h : IsFrame (p ++ q)) (hr : readFrame p 0 = .ok (g, n)) :
    g = p ∧ n = p.size ∧ q = .empty := by
  simp only [readFrame, Nat.zero_add] at hr
  split at hr
  · cases hr
  split at hr
  · cases hr
  split at hr
  · cases hr
  split at hr
  · cases hr
  rename_i hsize _ _ hfit
  simp only [lengthsSize] at hsize
  obtain ⟨rfl, rfl⟩ := Prod.mk.inj (Except.ok.inj hr)
  -- both lengths stand in `p`, so the whole is no longer than they say
  have hhead : bigEndianAt (p ++ q) 0 4 = bigEndianAt p 0 4 := bigEndianAt_append_left (by omega)
  have hbody : bigEndianAt (p ++ q) 4 4 = bigEndianAt p 4 4 := bigEndianAt_append_left (by omega)
  have heq := h.size_eq
  rw [hhead, hbody, ByteArray.size_append] at heq
  have hq : q = .empty := ByteArray.size_eq_zero_iff.mp (by omega)
  have htotal : bigEndianAt p 0 4 + bigEndianAt p 4 4 = p.size := by omega
  rw [htotal, ByteArray.extract_zero_size]
  exact ⟨rfl, rfl, hq⟩

/-- A stream from which a frame is read begins with this frame. -/
theorem begins_of_readFrame (h : readFrame a 0 = .ok (f, n)) :
    IsFrame f ∧ f.size ≤ maxFrame ∧ n = f.size ∧ a = f ++ a.extract n a.size := by
  simp only [readFrame, Nat.zero_add] at h
  split at h
  · cases h
  split at h
  · cases h
  split at h
  · cases h
  split at h
  · cases h
  rename_i hsize hhead hmax hfit
  simp only [lengthsSize] at hsize
  obtain ⟨hf, rfl⟩ := Prod.mk.inj (Except.ok.inj h)
  have hn : f.size = bigEndianAt a 0 4 + bigEndianAt a 4 4 := by
    rw [← hf, ByteArray.size_extract]
    omega
  have happend : a = f ++ a.extract f.size a.size := by
    rw [hn, ← hf, extract_append_rest]
  -- both lengths stand in the frame
  have hle : 8 ≤ f.size := by
    simp only [headSize] at hhead
    omega
  have hheader : bigEndianAt a 0 4 = bigEndianAt f 0 4 := by
    rw [happend]
    exact bigEndianAt_append_left (by omega)
  have hbody : bigEndianAt a 4 4 = bigEndianAt f 4 4 := by
    rw [happend]
    exact bigEndianAt_append_left (by omega)
  refine ⟨⟨?_, ?_⟩, ?_, hn.symm, hn ▸ happend⟩
  · rw [← hheader]
    exact Nat.le_of_not_lt hhead
  · rw [← hheader, ← hbody, hn]
  · rw [hn]
    exact Nat.le_of_not_lt hmax

/-- A frame that is refused stays refused, whatever comes after. -/
theorem readFrame_append_of_error (h : readFrame a 0 = .error m) (hm : m ≠ .ended) :
    readFrame (a ++ b) 0 = .error m := by
  simp only [readFrame, Nat.zero_add] at h ⊢
  split at h
  · cases h
    exact absurd rfl hm
  rename_i hsize
  simp only [lengthsSize] at hsize
  rw [bigEndianAt_append_left (by omega), bigEndianAt_append_left (by omega),
    if_neg (by rw [ByteArray.size_append, lengthsSize]; omega)]
  split at h
  · rename_i hhead
    rw [if_pos hhead, h]
  rename_i hhead
  split at h
  · rename_i hmax
    rw [if_neg hhead, if_pos hmax, h]
  split at h
  · cases h
    exact absurd rfl hm
  · cases h

/-- Reading from an index on goes by nothing that stands before it. -/
theorem readFrame_append_right : readFrame (a ++ b) (a.size + start) =
    (readFrame b start).map fun x => (x.1, a.size + x.2) := by
  have hextract (k : Nat) : (a ++ b).extract (a.size + start) (a.size + k) = b.extract start k :=
    ByteArray.extract_append_size_add
  simp only [readFrame, Nat.add_assoc, bigEndianAt_append_right, ByteArray.size_append,
    Nat.add_lt_add_iff_left, hextract]
  split
  · rfl
  split
  · rfl
  split
  · rfl
  split <;> rfl

theorem readFrom_of_error (h : readFrame a start = .error m) : readFrom a start = ([], m) := by
  rw [readFrom]
  split
  · rename_i m' h'
    rw [h] at h'
    cases h'
    rfl
  · rename_i h'
    rw [h] at h'
    cases h'

theorem readFrom_of_ok (h : readFrame a start = .ok (f, n)) :
    readFrom a start = (f :: (readFrom a n).1, (readFrom a n).2) := by
  rw [readFrom]
  split
  · rename_i h'
    rw [h] at h'
    cases h'
  · rename_i h'
    rw [h] at h'
    cases h'
    rfl

/-- What was read before does not matter. -/
theorem readFrom_append_right : readFrom (a ++ b) (a.size + start) = readFrom b start := by
  -- along the reading of `b`, which begins anew wherever a frame ends
  induction start using readFrom.induct b with
  | case1 start m h =>
    have hr : readFrame (a ++ b) (a.size + start) = .error m := by
      rw [readFrame_append_right, h]
      rfl
    rw [readFrom_of_error h, readFrom_of_error hr]
  | case2 start frame next h frames fault hrest ih =>
    have hr : readFrame (a ++ b) (a.size + start) = .ok (frame, a.size + next) := by
      rw [readFrame_append_right, h]
      rfl
    rw [readFrom_of_ok h, readFrom_of_ok hr, ih]

theorem readAll_append (h : IsFrame f) (hm : f.size ≤ maxFrame) :
    (readAll (f ++ rest)).1 = f :: (readAll rest).1 := by
  have hr : readFrame (f ++ rest) 0 = .ok (f, f.size) := by
    rw [readFrame_append h, if_neg (Nat.not_lt.mpr hm)]
  rw [readAll, readFrom_of_ok hr, readAll]
  have hrest : readFrom (f ++ rest) (f.size + 0) = readFrom rest 0 := readFrom_append_right
  exact congrArg (fun x => f :: x.1) hrest

/-- A frame that is too large to be read stops the reading. -/
theorem readAll_append_of_lt (h : IsFrame f) (hm : maxFrame < f.size) :
    (readAll (f ++ rest)).1 = [] := by
  have hr : readFrame (f ++ rest) 0 = .error .tooLong := by
    rw [readFrame_append h, if_pos hm]
  rw [readAll, readFrom_of_error hr]

/-- What is put together with its true lengths is a frame. -/
theorem isFrame_fixedHead {codes : Codes} {fields data : ByteArray}
    (hh : headSize + fields.size < UInt32.size) (hb : data.size < UInt32.size) :
    IsFrame ((fixedHead (.ofNat (headSize + fields.size)) (.ofNat data.size) codes).toByteArray ++
      (fields ++ data)) where
  headSize_le := by
    rw [header_fixedHead, UInt32.toNat_ofNat_of_lt' hh]
    exact Nat.le_add_right _ _
  size_eq := by
    rw [header_fixedHead, body_fixedHead, UInt32.toNat_ofNat_of_lt' hh,
      UInt32.toNat_ofNat_of_lt' hb,
      ByteArray.size_append, ByteArray.size_append, size_fixedHead, Nat.add_assoc]

end RemoteCall.Stream
