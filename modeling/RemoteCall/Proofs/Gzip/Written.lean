import RemoteCall.Gzip.Stored
import RemoteCall.Proofs.Gzip.Limit
import RemoteCall.Proofs.Message.Head
import Mathlib.Algebra.Group.Nat.Defs

/-! What the storing encoder writes, the reader reads: plain blocks are inflated to the bytes that
stand in them. -/
namespace RemoteCall.Inflate
variable {source out bytes pre post : ByteArray} {limit k : Nat}

/-- The bits of a byte come in order, the least significant one first. -/
theorem bit_eq {i : Nat} (hk : k < source.size) (hi : i < 8) :
    bit source (8 * k + i) = .ok ((byteAt source k).toNat / 2 ^ i % 2, 8 * k + i + 1) := by
  have hdiv : (8 * k + i) / 8 = k := by omega
  have hmod : (8 * k + i) % 8 = i := by omega
  simp only [bit, hdiv, hmod, hk, ↓reduceDIte, byteAt, Nat.shiftRight_eq_div_pow]

theorem number_succ {n pos low high next last : Nat} (h : bit source pos = .ok (low, next))
    (h' : number source n next = .ok (high, last)) :
    number source (n + 1) pos = .ok (low + 2 * high, last) := by
  rw [number]
  exact bind_eq_ok.mpr ⟨_, h, bind_eq_ok.mpr ⟨_, h', rfl⟩⟩

/-- The bits that are left of a byte are its higher digits. -/
theorem number_rest {i j : Nat} (hk : k < source.size) (h : i + j = 8) :
    number source j (8 * k + i) = .ok ((byteAt source k).toNat / 2 ^ i, 8 * (k + 1)) := by
  induction j generalizing i with
  | zero =>
    have hbyte : (byteAt source k).toNat < 2 ^ 8 := (byteAt source k).toNat_lt
    obtain rfl : i = 8 := h
    rw [number, Nat.div_eq_of_lt hbyte, Nat.mul_add]
  | succ j ih =>
    have hrest := @ih (i + 1) (by omega)
    rw [number_succ (bit_eq hk (by omega)) hrest, Nat.pow_succ, ← Nat.div_div_eq_div_mul,
      Nat.mod_add_div]

/-- A number is read in two parts, the low one first. -/
theorem number_add {m n pos a b p q : Nat} (h : number source m pos = .ok (a, p))
    (h' : number source n p = .ok (b, q)) : number source (m + n) pos = .ok (a + 2 ^ m * b, q) := by
  induction m generalizing pos a with
  | zero =>
    cases h
    rw [Nat.zero_add, h', Nat.pow_zero, Nat.one_mul, Nat.zero_add]
  | succ m ih =>
    obtain ⟨⟨low, next⟩, hlow, h⟩ := bind_eq_ok.mp h
    obtain ⟨⟨high, last⟩, hhigh, h⟩ := bind_eq_ok.mp h
    cases h
    rw [Nat.succ_add, number_succ hlow (ih hhigh), Nat.pow_succ, Nat.mul_add, ← Nat.add_assoc,
      Nat.mul_comm (2 ^ m) 2, Nat.mul_assoc]

/-- Sixteen bits from the start of a byte are a word, its low byte first. -/
theorem number_word (hk : k + 1 < source.size) : number source 16 (8 * k) =
    .ok ((byteAt source k).toNat + 256 * (byteAt source (k + 1)).toNat, 8 * (k + 2)) := by
  have hlow := @number_rest source k 0 8 (by omega) rfl
  have hhigh := @number_rest source (k + 1) 0 8 hk rfl
  rw [Nat.pow_zero, Nat.div_one, Nat.add_zero] at hlow hhigh
  exact number_add hlow hhigh

theorem push_eq_append (b : UInt8) : out.push b = out ++ [b].toByteArray := by
  apply ByteArray.ext
  rw [ByteArray.data_push, ByteArray.data_append, List.data_toByteArray]
  rfl

/-- Plain bytes are yielded as they stand. -/
theorem plainBytes_eq {count start : Nat} (hs : start + count ≤ source.size)
    (hl : out.size + count ≤ limit) : plainBytes source limit count out start =
      .ok (out ++ source.extract start (start + count), 8 * (start + count)) := by
  induction count generalizing out start with
  | zero => rw [plainBytes, Nat.add_zero, ByteArray.extract_same, ByteArray.append_empty]
  | succ count ih =>
    have hsize : (out.push source[start]).size + count ≤ limit := by
      rw [ByteArray.size_push]
      omega
    have hcut : source.extract start (start + (count + 1)) =
        [source[start]].toByteArray ++ source.extract (start + 1) (start + 1 + count) := by
      rw [← ByteArray.extract_add_one (by omega), Nat.add_right_comm, Nat.add_assoc,
        ← ByteArray.extract_eq_extract_append_extract _ (by omega) (by omega)]
    rw [plainBytes, dif_pos (by omega), emit, if_pos (by omega)]
    refine (ih (by omega) hsize).trans ?_
    rw [hcut, push_eq_append, ByteArray.append_assoc, Nat.add_right_comm, Nat.add_assoc]

end RemoteCall.Inflate

namespace RemoteCall.Gzip
open Inflate
variable {source out bytes pre post payload : ByteArray} {limit : Nat} {last : Bool}

def plainHead (last : Bool) (size : Nat) : List UInt8 :=
  (if last then 1 else 0) :: littleEndian 2 size ++ littleEndian 2 (65535 - size)

theorem plainBlock_eq : plainBlock last bytes = (plainHead last bytes.size).toByteArray ++ bytes :=
  rfl

theorem size_plainHead {size : Nat} : (plainHead last size).toByteArray.size = 5 := by
  rw [List.size_toByteArray]
  rfl

theorem size_plainBlock : (plainBlock last bytes).size = 5 + bytes.size := by
  rw [plainBlock_eq, ByteArray.size_append, size_plainHead]

/-- Inside a stream, the bytes of the head of a plain block. -/
theorem byteAt_plainHead {size i : Nat} (hi : i < 5) :
    byteAt (pre ++ ((plainHead last size).toByteArray ++ post)) (pre.size + i) =
      (plainHead last size).getD i 0 := by
  rw [byteAt_append_right, byteAt_append_left (by rwa [size_plainHead]), byteAt_toByteArray]

/-- A word is put together from its two bytes. -/
theorem littleEndian_word {n : Nat} (h : n ≤ 65535) :
    ((littleEndian 2 n).getD 0 0).toNat + 256 * ((littleEndian 2 n).getD 1 0).toNat = n := by
  have hlow : ((littleEndian 2 n).getD 0 0).toNat = n % 256 := UInt8.toNat_ofNat'
  have hhigh : ((littleEndian 2 n).getD 1 0).toNat = (n >>> 8) % 256 := UInt8.toNat_ofNat'
  rw [hlow, hhigh, Nat.shiftRight_eq_div_pow]
  omega

/-- The head of a plain block: the mark of the last block, the kind, the size and its complement. -/
theorem plainBlock_head {size : Nat} (hs : size ≤ blockSize) :
    let source := pre ++ ((plainHead last size).toByteArray ++ post)
    bit source (8 * pre.size) = .ok (if last then 1 else 0, 8 * pre.size + 1) ∧
      number source 2 (8 * pre.size + 1) = .ok (0, 8 * pre.size + 3) ∧
      number source 16 (8 * (pre.size + 1)) = .ok (size, 8 * (pre.size + 3)) ∧
      number source 16 (8 * (pre.size + 3)) = .ok (65535 - size, 8 * (pre.size + 5)) := by
  intro source
  have hsize : pre.size + 5 ≤ source.size := by
    rw [ByteArray.size_append, ByteArray.size_append, size_plainHead]
    omega
  have hbyte (i : Nat) (hi : i < 5) :
      byteAt source (pre.size + i) = (plainHead last size).getD i 0 :=
    byteAt_plainHead hi
  have hmark : (byteAt source pre.size).toNat = if last then 1 else 0 := by
    have h₀ := hbyte 0 (by omega)
    rw [Nat.add_zero] at h₀
    rw [h₀]
    cases last <;> rfl
  simp only [blockSize] at hs
  refine ⟨?_, ?_, ?_, ?_⟩
  · have hbit := @bit_eq source pre.size 0 (by omega) (by omega)
    rw [hmark] at hbit
    cases last <;> exact hbit
  · have hfirst := @bit_eq source pre.size 1 (by omega) (by omega)
    have hsecond := @bit_eq source pre.size 2 (by omega) (by omega)
    rw [hmark] at hfirst hsecond
    have hnone : number source 0 (8 * pre.size + 3) = .ok (0, 8 * pre.size + 3) := rfl
    have h := number_succ hfirst (number_succ hsecond hnone)
    cases last <;> exact h
  · rw [number_word (by omega), Nat.add_assoc, hbyte 1 (by omega), hbyte 2 (by omega)]
    exact congrArg (fun n => Except.ok (n, 8 * (pre.size + 3))) (littleEndian_word hs)
  · rw [number_word (by omega), Nat.add_assoc, hbyte 3 (by omega), hbyte 4 (by omega)]
    exact congrArg (fun n => Except.ok (n, 8 * (pre.size + 5))) (littleEndian_word (by omega))

/-- A plain block is inflated to its bytes. -/
theorem block_plainBlock (hb : bytes.size ≤ blockSize) (hl : out.size + bytes.size ≤ limit) :
    block (pre ++ (plainBlock last bytes ++ post)) limit 0 out (8 * pre.size + 3) =
      .ok (out ++ bytes, 8 * (pre ++ plainBlock last bytes).size) := by
  rw [plainBlock_eq, ByteArray.append_assoc]
  obtain ⟨-, -, hsize, hturned⟩ := @plainBlock_head pre (bytes ++ post) last _ hb
  generalize hsource : pre ++ ((plainHead last bytes.size).toByteArray ++ (bytes ++ post)) =
    source at hsize hturned
  have hpre : (pre ++ (plainHead last bytes.size).toByteArray).size = pre.size + 5 := by
    rw [ByteArray.size_append, size_plainHead]
  have hcut : source.extract (pre.size + 5) (pre.size + 5 + bytes.size) = bytes := by
    have hright := @ByteArray.extract_append_size_add'
      (pre ++ (plainHead last bytes.size).toByteArray)
      (bytes ++ post) 0 bytes.size _ hpre.symm
    rw [← hsource, ← ByteArray.append_assoc]
    exact hright.trans (ByteArray.extract_append_eq_left rfl)
  have hfit : pre.size + 5 + bytes.size ≤ source.size := by
    rw [← hsource]
    simp only [ByteArray.size_append, size_plainHead]
    omega
  have hstart : (8 * pre.size + 3 + 7) / 8 * 8 = 8 * (pre.size + 1) := by omega
  have hbytes : 8 * (pre.size + 5) / 8 = pre.size + 5 := by omega
  simp only [blockSize] at hb
  rw [block, Inflate.plainBlock, hstart]
  refine bind_eq_ok.mpr ⟨_, hsize, bind_eq_ok.mpr ⟨_, hturned, ?_⟩⟩
  have hwhole : (bytes.size + (65535 - bytes.size) == 65535) = true := beq_iff_eq.mpr (by omega)
  refine (if_pos hwhole).trans ?_
  rw [hbytes, plainBytes_eq hfit hl, hcut, ← ByteArray.append_assoc, ByteArray.size_append, hpre]

/-- A plain block is read back as the bytes that it was made of. -/
theorem blocks_plainBlock {fuel : Nat} (hb : bytes.size ≤ blockSize)
    (hl : out.size + bytes.size ≤ limit) :
    blocks (pre ++ (plainBlock last bytes ++ post)) limit (fuel + 1) out (8 * pre.size) =
      if last then .ok (out ++ bytes, 8 * (pre ++ plainBlock last bytes).size)
      else blocks (pre ++ (plainBlock last bytes ++ post)) limit fuel (out ++ bytes)
        (8 * (pre ++ plainBlock last bytes).size) := by
  have hblock := @block_plainBlock out bytes pre post limit last hb hl
  obtain ⟨hmark, hkind, -, -⟩ := @plainBlock_head pre (bytes ++ post) last _ hb
  rw [← ByteArray.append_assoc
    (a := (plainHead last bytes.size).toByteArray), ← plainBlock_eq] at hmark hkind
  rw [blocks, hmark]
  simp only [bind, Except.bind, hkind, hblock]
  cases last <;> rfl

theorem plainBlocks_of_lt {start : Nat} (out : ByteArray) (h : ¬ payload.size ≤ start + blockSize) :
    plainBlocks payload start out = plainBlocks payload (start + blockSize)
      (out ++ plainBlock false (payload.extract start (start + blockSize))) := by
  rw [plainBlocks, if_neg h]

/-- The blocks of a payload from an index on do not depend on what stands before them. -/
theorem plainBlocks_append (payload : ByteArray) (start : Nat) (out : ByteArray) :
    plainBlocks payload start out = out ++ plainBlocks payload start .empty := by
  induction hn : payload.size - start using Nat.strongRecOn generalizing start out with
  | ind n ih =>
    by_cases h : payload.size ≤ start + blockSize
    · rw [plainBlocks, if_pos h, plainBlocks, if_pos h, ByteArray.empty_append]
    · have hlt : payload.size - (start + blockSize) < n := by
        simp only [blockSize] at h ⊢
        omega
      have hrest := fun out => ih _ hlt (start + blockSize) out rfl
      rw [plainBlocks_of_lt out h, hrest, plainBlocks_of_lt .empty h, hrest (.empty ++ _),
        ByteArray.empty_append, ByteArray.append_assoc]

theorem plainBlocks_cons {start : Nat} (h : ¬ payload.size ≤ start + blockSize) :
    plainBlocks payload start .empty =
      plainBlock false (payload.extract start (start + blockSize)) ++
      plainBlocks payload (start + blockSize) .empty := by
  rw [plainBlocks_of_lt .empty h, plainBlocks_append, ByteArray.empty_append]

/-- All blocks of a payload are inflated to the payload. -/
theorem blocks_plainBlocks {start fuel : Nat} (hstart : start ≤ payload.size)
    (hl : payload.size ≤ limit) (hfuel : (plainBlocks payload start .empty).size ≤ fuel) :
    blocks (pre ++ (plainBlocks payload start .empty ++ post)) limit fuel (payload.extract 0 start)
      (8 * pre.size) = .ok (payload, 8 * (pre ++ plainBlocks payload start .empty).size) := by
  -- block by block, with what was inflated so far being the payload up to the index
  induction hn : payload.size - start using Nat.strongRecOn generalizing start fuel pre with
  | ind n ih =>
    have hsofar : (payload.extract 0 start).size = start := by
      rw [ByteArray.size_extract]
      omega
    by_cases h : payload.size ≤ start + blockSize
    · have hlast : plainBlocks payload start .empty = plainBlock true
          (payload.extract start payload.size) := by
        rw [plainBlocks, if_pos h, ByteArray.empty_append]
      have hsize : (payload.extract start payload.size).size = payload.size - start := by
        rw [ByteArray.size_extract, Nat.min_self]
      rw [hlast] at hfuel ⊢
      rw [size_plainBlock] at hfuel
      obtain ⟨fuel, rfl⟩ := Nat.exists_eq_add_one_of_ne_zero (n := fuel) (by omega)
      rw [blocks_plainBlock (by omega) (by omega), if_pos rfl, extract_append_rest]
    · have hsize : (payload.extract start (start + blockSize)).size = blockSize := by
        rw [ByteArray.size_extract]
        omega
      have hlt : payload.size - (start + blockSize) < n := by
        simp only [blockSize] at h ⊢
        omega
      rw [plainBlocks_cons h] at hfuel ⊢
      rw [ByteArray.size_append, size_plainBlock] at hfuel
      obtain ⟨fuel, rfl⟩ := Nat.exists_eq_add_one_of_ne_zero (n := fuel) (by omega)
      have hassoc (block rest : ByteArray) : pre ++ (block ++ rest) = pre ++ block ++ rest :=
        ByteArray.append_assoc.symm
      rw [ByteArray.append_assoc, blocks_plainBlock (by omega) (by omega),
        if_neg Bool.false_ne_true,
        ← ByteArray.extract_eq_extract_append_extract _ (by omega) (by omega), hassoc, hassoc]
      refine ih _ hlt ?_ ?_ rfl
      · omega
      · omega

theorem extract_header : (header.toByteArray ++ out).extract 0 3 = ⟨#[0x1F, 0x8B, 8]⟩ := by
  have hsize : header.toByteArray.size = 10 := List.size_toByteArray
  rw [ByteArray.extract_append, hsize, ByteArray.extract_same, ByteArray.append_empty]
  decide

/-- The stream begins right behind the header that is written. -/
theorem streamStart_header : streamStart (header.toByteArray ++ out) = some 10 := by
  have hsize : 10 ≤ (header.toByteArray ++ out).size := by
    rw [ByteArray.size_append, List.size_toByteArray]
    exact Nat.le_add_right _ _
  have hflags : byteAt (header.toByteArray ++ out) 3 = 0 := by
    rw [byteAt_append_left (by rw [List.size_toByteArray]; decide), byteAt_toByteArray]
    rfl
  have hbegin : (decide (10 ≤ (header.toByteArray ++ out).size) &&
      ((header.toByteArray ++ out).extract 0 3).data == #[0x1F, 0x8B, 8]) = true := by
    rw [extract_header, decide_eq_true hsize]
    rfl
  rw [streamStart, hflags, if_pos hbegin]
  rfl

/-- What is written is a container of the payload. -/
theorem holds_store (payload : ByteArray) : Holds (store payload) payload := by
  have hheader : header.toByteArray.size = 10 := List.size_toByteArray
  have hstore : store payload =
      header.toByteArray ++ (plainBlocks payload 0 .empty ++ (trailer payload).toByteArray) := by
    rw [store, plainBlocks_append, ByteArray.append_assoc]
  have hfuel : (plainBlocks payload 0 .empty).size ≤ symbolFuel (store payload) := by
    rw [symbolFuel, hstore]
    simp only [ByteArray.size_append]
    omega
  have hblocks := @blocks_plainBlocks header.toByteArray (trailer payload).toByteArray
    payload payload.size 0 _
    (Nat.zero_le _) (Nat.le_refl _) hfuel
  rw [← hstore, hheader, ByteArray.extract_same] at hblocks
  have hinflate : inflate (store payload) payload.size 10 =
      .ok (payload, (header.toByteArray ++ plainBlocks payload 0 .empty).size) :=
    bind_eq_ok.mpr ⟨_, hblocks, congrArg (fun n => Except.ok (payload, n)) (by omega)⟩
  have hstart : streamStart (store payload) = some 10 := by
    rw [hstore, streamStart_header]
  have hcut : (store payload).extract (header.toByteArray ++ plainBlocks payload 0 .empty).size
      ((header.toByteArray ++ plainBlocks payload 0 .empty).size + 8) =
        (trailer payload).toByteArray := by
    rw [hstore, ← ByteArray.append_assoc]
    exact ByteArray.extract_append_eq_right rfl (by rw [List.size_toByteArray]; rfl)
  refine ⟨payload.size, ?_⟩
  rw [decompress, hstart]
  refine bind_eq_ok.mpr ⟨_, hinflate, if_pos ?_⟩
  rw [hcut]
  exact beq_self_eq_true (trailer payload).toByteArray.data

instance : LawfulEncoder := ⟨fun payload => ⟨store payload, rfl, holds_store payload⟩⟩

end RemoteCall.Gzip
