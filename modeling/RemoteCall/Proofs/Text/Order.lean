import RemoteCall.Data.Words
import Mathlib.Data.String.Basic

/-! Texts in the order of their bytes.

Of two characters the smaller one has the smaller bytes, and differs from the other before either
ends. So comparing the bytes of two texts compares their characters. -/
namespace RemoteCall
variable {a b : String}

theorem utf8_eq_flatMap : utf8 a = a.toList.flatMap String.utf8EncodeChar := by
  have h : a.toUTF8 = (a.toList.flatMap String.utf8EncodeChar).toByteArray := by
    conv => lhs; rw [← String.ofList_toList (s := a), String.toUTF8_eq_toByteArray]
    exact String.toByteArray_ofList
  rw [utf8, h, List.data_toByteArray]

theorem utf8_inj : utf8 a = utf8 b ↔ a = b := by
  constructor
  · intro h
    apply String.toByteArray_inj.mp
    apply ByteArray.ext
    exact Array.toList_inj.mp h
  · intro h
    rw [h]

/-- Whatever follows them. -/
theorem encodeChar_append_lt {c d : Char} (h : c < d) (x y : List UInt8) :
    String.utf8EncodeChar c ++ x < String.utf8EncodeChar d ++ y := by
  have hcd : c.val.toNat < d.val.toNat := h
  have hd : d.val.toNat < 1114112 := by
    rcases d.valid with hv | hv
    · exact Nat.lt_trans hv (by decide)
    · exact hv.2
  -- by the number of bytes of both: a longer form has the larger first byte, and in forms of the
  -- same length the bytes are the digits of the character
  unfold String.utf8EncodeChar
  dsimp only
  split_ifs <;>
    simp only [List.cons_append, List.nil_append, List.cons_lt_cons_iff, UInt8.lt_iff_toNat_lt,
      ← UInt8.toNat_inj, UInt8.toNat_ofNat'] <;>
    simp (disch := omega) only [Nat.mod_eq_of_lt] <;>
    omega

/-- Texts are in the order of their bytes. -/
theorem flatMap_encodeChar_lt {l m : List Char} (h : l < m) :
    l.flatMap String.utf8EncodeChar < m.flatMap String.utf8EncodeChar := by
  induction h with
  | nil =>
    rename_i c rest
    rw [List.flatMap_nil, List.flatMap_cons]
    have hlen : 0 < (String.utf8EncodeChar c).length := by
      rw [String.length_utf8EncodeChar]
      exact c.utf8Size_pos
    obtain ⟨x, l, hl⟩ := List.exists_cons_of_length_pos hlen
    rw [hl]
    exact List.Lex.nil
  | rel h =>
    rw [List.flatMap_cons, List.flatMap_cons]
    exact encodeChar_append_lt h _ _
  | cons h ih =>
    rw [List.flatMap_cons, List.flatMap_cons]
    exact List.append_left_lt ih

/-- The order of texts is the order of their bytes. -/
theorem utf8_lt_utf8 : utf8 a < utf8 b ↔ a < b := by
  have hlt {a b : String} (h : a < b) : utf8 a < utf8 b := by
    rw [utf8_eq_flatMap, utf8_eq_flatMap]
    exact flatMap_encodeChar_lt (String.lt_iff.mp h)
  refine ⟨fun h => ?_, hlt⟩
  by_contra hn
  -- otherwise the bytes of `b` come first, or are the same
  rcases lt_or_eq_of_le (String.not_lt.mp hn) with hb | rfl
  · exact List.lt_asymm h (hlt hb)
  · exact List.lt_irrefl _ h

/-! Texts that begin with others -/

/-- The bytes of a character tell where it ends. -/
theorem eq_of_encodeChar_append {c d : Char} {x y : List UInt8}
    (h : String.utf8EncodeChar c ++ x = String.utf8EncodeChar d ++ y) : c = d := by
  rcases lt_trichotomy c d with hlt | heq | hgt
  · exact absurd (h ▸ encodeChar_append_lt hlt x y) (List.lt_irrefl _)
  · exact heq
  · exact absurd (h ▸ encodeChar_append_lt hgt y x) (List.lt_irrefl _)

/-- One text begins with another just if its bytes do. -/
theorem flatMap_encodeChar_prefix {l m : List Char} :
    l.flatMap String.utf8EncodeChar <+: m.flatMap String.utf8EncodeChar ↔ l <+: m := by
  constructor
  · rintro ⟨rest, h⟩
    -- character by character, as far as the shorter text goes
    induction l generalizing m with
    | nil => exact List.nil_prefix
    | cons c l ih =>
      rw [List.flatMap_cons, List.append_assoc] at h
      cases m with
      | nil =>
        have hlen := congrArg List.length h
        rw [List.length_append, String.length_utf8EncodeChar, List.flatMap_nil,
          List.length_nil] at hlen
        have hpos := c.utf8Size_pos
        omega
      | cons d m =>
        rw [List.flatMap_cons] at h
        obtain rfl := eq_of_encodeChar_append h
        exact List.cons_prefix_cons.mpr ⟨rfl, ih (List.append_cancel_left h)⟩
  · rintro ⟨rest, rfl⟩
    rw [List.flatMap_append]
    exact List.prefix_append _ _

/-- A text begins with another if its bytes do. -/
theorem utf8_prefix_utf8 : utf8 a <+: utf8 b ↔ a.toList <+: b.toList := by
  rw [utf8_eq_flatMap, utf8_eq_flatMap]
  exact flatMap_encodeChar_prefix

end RemoteCall
