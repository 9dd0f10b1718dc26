import RemoteCall.Declaration.WireName
import Mathlib.Data.String.Basic

/-! Names of one spelling have wire names of their own.

In a wire name a capital stands where a word begins and nowhere else, so that the words can be read
off it. What is lost is how many underscores stand between them, or at an end, and an underscore
before a character without a capital. -/
namespace RemoteCall.Declaration
variable {a b : String} {c d : Char} {w first first' rest rest' : List Char}
  {l k : List (List Char)}

/-- A letter in lower case, with no capital behind it. -/
def IsWord (w : List Char) : Prop :=
  ∃ c rest, w = c :: rest ∧ c.isLower = true ∧ ∀ d ∈ rest, d.isUpper = false

/-- Words with single underscores between them. -/
def IsSnake (name : String) : Prop := ∀ w ∈ name.toList.splitOn '_', IsWord w

theorem isLower_iff : c.isLower = true ↔ 97 ≤ c.toNat ∧ c.toNat ≤ 122 := by
  change (decide (c.val ≥ 'a'.val) && decide (c.val ≤ 'z'.val)) = true ↔ _
  rw [Bool.and_eq_true, decide_eq_true_eq, decide_eq_true_eq, ge_iff_le, UInt32.le_iff_toNat_le,
    UInt32.le_iff_toNat_le]
  rfl

/-- A letter has a single capital, which is no other letter's. -/
theorem upper_of_isLower (h : c.isLower = true) :
    ∃ x, Uppercase.upper c = [x] ∧ x.isUpper = true ∧ x.toNat + 32 = c.toNat := by
  have hall : ∀ n < 123, 97 ≤ n → Uppercase.upper (Char.ofNat n) = [Char.ofNat (n - 32)] ∧
      (Char.ofNat (n - 32)).isUpper = true ∧ (Char.ofNat (n - 32)).toNat + 32 = n := by
    decide +kernel
  obtain ⟨hlow, hhigh⟩ := isLower_iff.mp h
  have hc := hall c.toNat (Nat.lt_succ_of_le hhigh) hlow
  rw [Char.ofNat_toNat] at hc
  exact ⟨_, hc⟩

/-- Two pieces without capitals, each before nothing or a capital. -/
theorem append_inj_of_isUpper (hf : ∀ d ∈ first, d.isUpper = false)
    (hf' : ∀ d ∈ first', d.isUpper = false) (hr : ∀ d ∈ rest.head?, d.isUpper = true)
    (hr' : ∀ d ∈ rest'.head?, d.isUpper = true) (h : first ++ rest = first' ++ rest') :
    first = first' ∧ rest = rest' := by
  have htake {first rest : List Char} (hf : ∀ d ∈ first, d.isUpper = false)
      (hr : ∀ d ∈ rest.head?, d.isUpper = true) :
      (first ++ rest).takeWhile (fun d => !d.isUpper) = first := by
    rw [List.takeWhile_append_of_pos fun d hd => by rw [hf d hd]; rfl]
    cases rest with
    | nil => rw [List.takeWhile_nil, List.append_nil]
    | cons d rest =>
      have hd : (!d.isUpper) = false := by rw [hr d rfl]; rfl
      rw [List.takeWhile_cons_of_neg (Bool.not_eq_true _ ▸ hd), List.append_nil]
  have hfirst : first = first' := by
    rw [← htake hf hr, h, htake hf' hr']
  refine ⟨hfirst, ?_⟩
  rw [hfirst] at h
  exact List.append_cancel_left h

theorem head?_flatMap_capitalize (hl : ∀ w ∈ l, IsWord w) :
    ∀ d ∈ (l.flatMap capitalize).head?, d.isUpper = true := by
  intro d hd
  cases l with
  | nil => cases hd
  | cons w l =>
    obtain ⟨c, rest, rfl, hc, -⟩ := hl w List.mem_cons_self
    obtain ⟨x, hx, hup, -⟩ := upper_of_isLower hc
    rw [List.flatMap_cons, capitalize, hx] at hd
    obtain rfl : x = d := Option.some.inj hd
    exact hup

/-- Words can be read off their capitals. -/
theorem flatMap_capitalize_inj (hl : ∀ w ∈ l, IsWord w) (hk : ∀ w ∈ k, IsWord w)
    (h : l.flatMap capitalize = k.flatMap capitalize) : l = k := by
  -- word by word: each ends where the next capital stands
  induction l generalizing k with
  | nil =>
    cases k with
    | nil => rfl
    | cons w k =>
      obtain ⟨c, rest, rfl, hc, -⟩ := hk w List.mem_cons_self
      obtain ⟨x, hx, -⟩ := upper_of_isLower hc
      rw [List.flatMap_nil, List.flatMap_cons, capitalize, hx] at h
      cases h
  | cons w l ih =>
    obtain ⟨c, rest, rfl, hc, hrest⟩ := hl w List.mem_cons_self
    obtain ⟨x, hx, -, hxc⟩ := upper_of_isLower hc
    have hl' : ∀ w ∈ l, IsWord w := fun w hw => hl w (List.mem_cons_of_mem _ hw)
    cases k with
    | nil =>
      rw [List.flatMap_nil, List.flatMap_cons, capitalize, hx] at h
      cases h
    | cons v k =>
      obtain ⟨d, rest', rfl, hd, hrest'⟩ := hk v List.mem_cons_self
      obtain ⟨y, hy, -, hyd⟩ := upper_of_isLower hd
      have hk' : ∀ w ∈ k, IsWord w := fun w hw => hk w (List.mem_cons_of_mem _ hw)
      rw [List.flatMap_cons, List.flatMap_cons, capitalize, capitalize, hx, hy] at h
      obtain ⟨hxy, htail⟩ := List.cons.inj h
      have hcd : c = d := Char.toNat_inj.mp (by rw [← hxc, ← hyd, hxy])
      obtain ⟨hword, hwords⟩ := append_inj_of_isUpper hrest hrest' (head?_flatMap_capitalize hl')
        (head?_flatMap_capitalize hk') htail
      rw [hcd, hword, ih hl' hk' hwords]

/-- The words of such a name are what stands between its underscores. -/
theorem words_of_isSnake (h : IsSnake a) : words a.toList = a.toList.splitOn '_' := by
  apply List.filter_eq_self.mpr
  intro w hw
  obtain ⟨c, rest, rfl, -⟩ := h w hw
  rfl

/-- Two such names become the same name on the wire only if they are the same. -/
theorem wireName_inj (ha : IsSnake a) (hb : IsSnake b) : wireName a = wireName b ↔ a = b := by
  constructor
  · intro h
    rw [wireName, wireName, String.ofList_inj, words_of_isSnake ha, words_of_isSnake hb] at h
    have hsplit : a.toList.splitOn '_' = b.toList.splitOn '_' := flatMap_capitalize_inj ha hb h
    -- the words and their underscores make up the name
    have hlist : a.toList = b.toList := by
      calc
        a.toList = ['_'].intercalate (a.toList.splitOn '_') := (List.intercalate_splitOn '_').symm
        _ = ['_'].intercalate (b.toList.splitOn '_') := by rw [hsplit]
        _ = b.toList := List.intercalate_splitOn '_'
    exact String.toList_inj.mp hlist
  · intro h
    rw [h]

end RemoteCall.Declaration
