import RemoteCall.Message.Places
import RemoteCall.Proofs.Message.Head

/-! Whatever the bytes are, reading by place never leaves them, and yields what reading yields. -/
namespace RemoteCall
variable {α β : Type}

namespace Reading

def inside (x : Except Malformed α) : Reading α := ExceptT.mk (some x)

theorem ofOption_some {a : α} : ofOption (some a) = inside (.ok a) := rfl

theorem ofExcept_eq {x : Except Malformed α} : (ofExcept x : Reading α) = inside x := by
  cases x <;> rfl

theorem ok_bind {a : α} {f : α → Reading β} : (inside (.ok a) >>= f) = f a := rfl

theorem inside_bind {x : Except Malformed α} {f : α → Except Malformed β} {g : α → Reading β}
    (h : ∀ a, x = .ok a → g a = inside (f a)) : (inside x >>= g) = inside (x >>= f) := by
  cases x with
  | ok a => exact h a rfl
  | error m => rfl

end Reading

open Reading

section
variable {bytes : List UInt8} {b : UInt8} {n : Nat}

theorem slice?_start (h : n ≤ bytes.length) : slice? bytes 0 n = some (bytes.take n) := by
  rw [slice?, if_pos ⟨Nat.zero_le n, h⟩, List.drop_zero]

theorem slice?_rest (h : n ≤ bytes.length) : slice? bytes n bytes.length = some (bytes.drop n) := by
  rw [slice?, if_pos ⟨h, Nat.le_refl _⟩, List.take_length]

theorem position_cons {x : UInt8} : position b (x :: bytes) =
    if x = b then some 0 else (position b bytes).map (· + 1) := by
  rw [position, List.findIdx?_cons]
  by_cases h : x = b
  · simp [h]
  · simp [h, position]

theorem cut_cons {x : UInt8} : Request.cut b (x :: bytes) =
    if x = b then some ([], bytes) else (Request.cut b bytes).map fun c => (x :: c.1, c.2) := by
  by_cases h : x = b
  · simp [Request.cut, h]
  · simp only [Request.cut, h, List.dropWhile_cons, List.takeWhile_cons,
      ↓reduceIte, bne_iff_ne, ne_eq, not_false_eq_true]
    split <;> rfl

/-- Bytes are cut where the byte first stands. -/
theorem cut_eq_position : Request.cut b bytes =
    (position b bytes).map fun n => (bytes.take n, bytes.drop (n + 1)) := by
  -- byte by byte: both go on as long as the byte is another one
  induction bytes with
  | nil => rfl
  | cons x rest ih =>
    rw [cut_cons, position_cons, ih]
    split
    · rfl
    · cases position b rest <;> rfl

theorem position_lt (h : position b bytes = some n) : n < bytes.length := by
  have hn := List.findIdx?_eq_some_iff_getElem.mp h
  exact hn.choose

end

namespace Request
variable {bytes : List UInt8} {name : String} {known : Metadata} {frame : ByteArray} {i : Nat}

/-- A field is read by its place without leaving the bytes, and as by cutting. -/
theorem fieldByPlace_eq : fieldByPlace name bytes = inside (readField name bytes) := by
  unfold fieldByPlace readField
  rw [cut_eq_position]
  cases hn : position splitter bytes with
  | none => rfl
  | some n =>
    -- the byte was found inside, so there are bytes up to it and a place behind it
    have hlt : n < bytes.length := position_lt hn
    simp only [Option.map_some]
    rw [slice?_start (Nat.le_of_lt hlt), slice?_rest hlt, ofOption_some, ok_bind, ofOption_some,
      ofExcept_eq]
    cases readText (bytes.take n) <;> rfl

theorem entryByPlace_eq : entryByPlace bytes = inside (readEntry bytes) := by
  unfold entryByPlace readEntry
  rw [cut_eq_position]
  cases hn : position pairSplitter bytes with
  | none => rfl
  | some n =>
    have hlt : n < bytes.length := position_lt hn
    simp only [Option.map_some]
    rw [slice?_start (Nat.le_of_lt hlt), slice?_rest hlt, ofOption_some, ok_bind, ofOption_some,
      ofExcept_eq]
    cases readText (bytes.take n) with
    | error m => rfl
    | ok key =>
      rw [ok_bind, ok_bind, ofExcept_eq]
      cases readText (bytes.drop (n + 1)) <;> rfl

theorem entriesByPlace_of_cut {entry rest : List UInt8} (hne : ¬ bytes.isEmpty)
    (hcut : cut splitter bytes = some (entry, rest)) :
    entriesByPlace known bytes = inside (readEntry entry) >>= fun e =>
      if known.contains e.1 then throw (.repeatedKey e.1)
      else entriesByPlace (known.insert e.1 e.2) rest := by
  rw [cut_eq_position, Option.map_eq_some_iff] at hcut
  obtain ⟨n, hn, hparts⟩ := hcut
  obtain ⟨rfl, rfl⟩ := Prod.mk.inj hparts
  have hlt : n < bytes.length := position_lt hn
  rw [entriesByPlace, if_neg hne, hn]
  dsimp only
  rw [slice?_start (Nat.le_of_lt hlt), ofOption_some, ok_bind, entryByPlace_eq]
  congr 1
  funext e
  split
  · rfl
  · split
    · -- the place behind the entry is never outside
      rename_i hslice
      rw [slice?_rest hlt] at hslice
      cases hslice
    · rename_i more hslice
      rw [slice?_rest hlt] at hslice
      cases hslice
      rfl

/-- So are all entries. -/
theorem entriesByPlace_eq : entriesByPlace known bytes = inside (readEntries known bytes) := by
  -- along the entries: what is left after one begins inside of the bytes
  fun_induction readEntries known bytes with
  | case1 known bytes hempty =>
    rw [entriesByPlace, if_pos hempty]
    rfl
  | case2 known bytes hne hcut =>
    rw [cut_eq_position, Option.map_eq_none_iff] at hcut
    rw [entriesByPlace, if_neg hne, hcut]
    rfl
  | case3 known bytes hne entry rest hcut m hread =>
    rw [entriesByPlace_of_cut hne hcut, hread]
    rfl
  | case4 known bytes hne entry rest hcut key value hread hknown =>
    rw [entriesByPlace_of_cut hne hcut, hread, ok_bind, if_pos hknown]
    rfl
  | case5 known bytes hne entry rest hcut key value hread hnew ih =>
    rw [entriesByPlace_of_cut hne hcut, hread, ok_bind, if_neg hnew, ih]

theorem getElem?_eq_byteAt (h : i < frame.size) :
    frame.data.toList[i]? = some (byteAt frame i) := by
  have hi : i < frame.data.toList.length := h
  rw [List.getElem?_eq_getElem hi, byteAt, dif_pos h]
  rfl

theorem drop_eq_byteAt_cons (h : i < frame.size) :
    frame.data.toList.drop i = byteAt frame i :: frame.data.toList.drop (i + 1) := by
  have hi : i < frame.data.toList.length := h
  have hget := getElem?_eq_byteAt h
  rw [List.getElem?_eq_getElem hi] at hget
  rw [List.drop_eq_getElem_cons hi, Option.some.inj hget]

theorem wordBetween_eq (h : i + 4 ≤ frame.size) :
    wordBetween frame.data.toList i (i + 4) = inside (.ok (bigEndianAt frame i 4)) := by
  have hle : i + 4 ≤ frame.data.toList.length := h
  have hslice : slice? frame.data.toList i (i + 4) =
      some [byteAt frame i, byteAt frame (i + 1), byteAt frame (i + 2), byteAt frame (i + 3)] := by
    rw [slice?, if_pos ⟨Nat.le_add_right i 4, hle⟩, List.drop_take, Nat.add_sub_cancel_left,
      drop_eq_byteAt_cons (by omega), drop_eq_byteAt_cons (by omega),
      drop_eq_byteAt_cons (by omega), drop_eq_byteAt_cons (by omega)]
    rfl
  rw [wordBetween, hslice, bigEndianAt_four]
  rfl

/-- The lengths are looked at only in bytes that are long enough to hold them. -/
theorem lengthsByPlace_eq : lengthsByPlace frame.data.toList =
    inside ((headerLength frame).map fun n => (n, frame.size - n)) := by
  have hlength : frame.data.toList.length = frame.size := rfl
  unfold lengthsByPlace headerLength
  dsimp only
  rw [hlength]
  by_cases hshort : frame.size < headSize
  · rw [if_pos hshort, if_pos hshort]
    rfl
  · have hfour : 0 + 4 ≤ frame.size := by simp only [headSize] at hshort; omega
    have height : 4 + 4 ≤ frame.size := by simp only [headSize] at hshort; omega
    rw [if_neg hshort, if_neg hshort, wordBetween_eq hfour, ok_bind, wordBetween_eq height, ok_bind]
    split
    · rfl
    · split
      · rfl
      · -- the body length that was read is the length that is left
        rename_i hbody
        rw [not_ne_iff] at hbody
        rw [← hbody]
        rfl

theorem slice?_toList {start stop : Nat} (h : start ≤ stop) (hstop : stop ≤ frame.size) :
    slice? frame.data.toList start stop = some (frame.extract start stop).data.toList := by
  have hle : stop ≤ frame.data.toList.length := hstop
  rw [slice?, if_pos ⟨h, hle⟩, ByteArray.data_extract, Array.toList_extract,
    List.extract_eq_take_drop, List.drop_take]

/-- So is the whole frame. -/
theorem readByPlace_eq : readByPlace frame.data.toList = inside (decode? frame) := by
  unfold readByPlace decode?
  rw [lengthsByPlace_eq]
  cases hlengths : headerLength frame with
  | error m => rfl
  | ok n =>
    obtain ⟨⟨hhead, hsize, -⟩, rfl⟩ := headerLength_eq_ok.mp hlengths
    -- the head is there, and what follows it ends where the data begin
    have hfits : 15 ≤ frame.size := Nat.le_trans hhead hsize
    have hid : wordBetween frame.data.toList 8 12 = inside (.ok (bigEndianAt frame 8 4)) :=
      wordBetween_eq (by omega)
    have hdata : slice? frame.data.toList (bigEndianAt frame 0 4) frame.data.toList.length =
        some (frame.extract (bigEndianAt frame 0 4) frame.size).data.toList :=
      slice?_toList hsize (Nat.le_refl _)
    rw [Except.map, ok_bind]
    dsimp only
    rw [hid, ok_bind, getElem?_eq_byteAt (by omega), getElem?_eq_byteAt (by omega),
      getElem?_eq_byteAt (by omega), slice?_toList hhead hsize, hdata]
    simp only [ofOption_some, ok_bind, fieldByPlace_eq, entriesByPlace_eq, toByteArray_toList]
    -- from here on both readers take the same steps: service, method, entries
    apply inside_bind
    rintro ⟨service, rest⟩ -
    apply inside_bind
    rintro ⟨method, more⟩ -
    apply inside_bind
    rintro metadata -
    rfl

/-- The reader never leaves the frame, and reads what is read without places. -/
theorem decodeByPlace_eq : decodeByPlace frame = some (decode frame) := by
  rw [decodeByPlace, readByPlace_eq, decode]
  rfl

end Request
end RemoteCall
