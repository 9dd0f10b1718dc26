import RemoteCall.Store.Basic
import RemoteCall.Proofs.Data.KeyMap
import RemoteCall.Proofs.Text.Order

/-! What a scan of a store finds.

A scan begins at the first key that does not come before the text asked for, and ends at the first
that does not begin with it. In key order nothing is passed over by that: a text does not come
before what it begins with, and whatever comes between the two begins with it as well. -/
namespace RemoteCall.Store
variable {text other start : String} {entries : List (String × Entry)}

/-! Texts in order -/

theorem startsWith_iff : startsWith text start = true ↔ start.toList <+: text.toList :=
  List.isPrefixOf_iff_prefix

theorem not_lt_of_prefix {p l : List Char} (h : p <+: l) : ¬ l < p := by
  obtain ⟨rest, rfl⟩ := h
  induction p with
  | nil => exact List.not_lt_nil _
  | cons c p ih =>
    intro hlt
    rw [List.cons_append, List.cons_lt_cons_iff] at hlt
    rcases hlt with hlt | ⟨-, hlt⟩
    · exact Char.lt_irrefl c hlt
    · exact ih hlt

/-- Between a text and one that begins with it. -/
theorem prefix_of_between {p k l : List Char} (hpk : ¬ k < p) (hkl : k < l) (h : p <+: l) :
    p <+: k := by
  induction p generalizing k l with
  | nil => exact List.nil_prefix
  | cons c p ih =>
    obtain ⟨rest, rfl⟩ := h
    cases k with
    | nil => exact absurd (List.nil_lt_cons _ _) hpk
    | cons d k =>
      rw [List.cons_lt_cons_iff, not_or, not_and] at hpk
      rw [List.cons_append, List.cons_lt_cons_iff] at hkl
      -- the first characters are the same, or it would stand outside
      rcases hkl with hlt | ⟨rfl, hkl⟩
      · exact absurd hlt hpk.1
      · exact List.cons_prefix_cons.mpr ⟨rfl, ih (hpk.2 rfl) hkl (List.prefix_append _ _)⟩

theorem not_lt_of_startsWith (h : startsWith text start = true) : ¬ text < start := by
  rw [String.lt_iff]
  exact not_lt_of_prefix (startsWith_iff.mp h)

/-- What stands between a text and another one that begins with it begins with it too. -/
theorem startsWith_of_between (hstart : ¬ text < start) (hlt : text < other)
    (h : startsWith other start = true) : startsWith text start = true := by
  rw [String.lt_iff] at hstart hlt
  exact startsWith_iff.mpr (prefix_of_between hstart hlt (startsWith_iff.mp h))

/-! Entries in key order -/

def found (start : String) (e : String × Entry) : Bool := startsWith e.1 start

/-- In sorted entries those that begin with a text stand together. -/
theorem takeWhile_found (hsorted : entries.Pairwise fun a b => a.1 < b.1)
    (hstart : ∀ e ∈ entries, ¬ e.1 < start) :
    entries.takeWhile (found start) = entries.filter (found start) := by
  induction entries with
  | nil => rfl
  | cons e rest ih =>
    obtain ⟨hlt, hrest⟩ := List.pairwise_cons.mp hsorted
    by_cases he : found start e = true
    · rw [List.takeWhile_cons_of_pos he, List.filter_cons_of_pos he,
        ih hrest fun x hx => hstart x (List.mem_cons_of_mem _ hx)]
    · -- no later key begins with the text, or this one would
      have hnone : rest.filter (found start) = [] := by
        apply List.filter_eq_nil_iff.mpr
        intro x hx hxs
        exact he (startsWith_of_between (hstart e List.mem_cons_self) (hlt x hx) hxs)
      rw [List.takeWhile_cons_of_neg he, List.filter_cons_of_neg he, hnone]

/-- A scan finds all keys that begin with the text, and no others. -/
theorem scanFrom_eq (hsorted : entries.Pairwise fun a b => a.1 < b.1) :
    scanFrom start entries = entries.filter (found start) := by
  induction entries with
  | nil => rfl
  | cons e rest ih =>
    obtain ⟨hlt, hrest⟩ := List.pairwise_cons.mp hsorted
    by_cases he : e.1 < start
    · have hout : ¬ found start e = true := fun h => not_lt_of_startsWith h he
      have hdrop : scanFrom start (e :: rest) = scanFrom start rest := by
        simp only [scanFrom, List.dropWhile_cons, he, decide_true, ↓reduceIte]
      rw [hdrop, List.filter_cons_of_neg hout, ih hrest]
    · -- from here on no key comes before the text
      have hall : ∀ x ∈ e :: rest, ¬ x.1 < start := by
        intro x hx hxs
        rcases List.mem_cons.mp hx with rfl | hx
        · exact he hxs
        · exact he (String.lt_trans (hlt x hx) hxs)
      have hdrop : scanFrom start (e :: rest) = (e :: rest).takeWhile (found start) := by
        simp only [scanFrom, List.dropWhile_cons, he, decide_false, Bool.false_eq_true, ↓reduceIte]
        rfl
      rw [hdrop, takeWhile_found hsorted hall]

variable {s : Store}

/-- A scan yields the entries that begin with the text, in order. -/
theorem scan_eq (hb : s.broken = false) : s.scan start =
    .ok ((s.entries.filter fun key _ => startsWith key start).map Entry.value).entries := by
  rw [scan, if_neg (ne_true_of_eq_false hb), scanFrom_eq s.entries.sorted]
  rfl

/-- A scan finds the entries whose key begins with the text, byte for byte: all of them and no
others, each once, in the order of the bytes of their keys. Only a store that broke refuses it. -/
theorem scan_complete (s : Store) (start : String) :
    ∃ entries : List (String × String),
      s.scan start = (if s.broken then .error brokenError else .ok entries) ∧
      (∀ key value, (key, value) ∈ entries ↔
        (∃ e, s.entries.get? key = some e ∧ e.value = value) ∧ utf8 start <+: utf8 key) ∧
      entries.Pairwise fun a b => utf8 a.1 < utf8 b.1 := by
  refine ⟨((s.entries.filter fun key _ => startsWith key start).map Entry.value).entries, ?_,
    fun key value => ?_, ?_⟩
  · cases hb : s.broken with
    | false => exact scan_eq hb
    | true => rw [scan, hb]; rfl
  · rw [utf8_prefix_utf8, ← startsWith_iff]
    constructor
    · intro h
      obtain ⟨⟨k, e⟩, hmem, heq⟩ := List.mem_map.mp h
      obtain ⟨rfl, rfl⟩ := Prod.mk.inj heq
      obtain ⟨hmem, hstart⟩ := List.mem_filter.mp hmem
      exact ⟨⟨e, KeyMap.get?_eq_some.mpr hmem, rfl⟩, hstart⟩
    · rintro ⟨⟨e, he, rfl⟩, hstart⟩
      have hmem : (key, e) ∈ (s.entries.filter fun key _ => startsWith key start).entries :=
        List.mem_filter.mpr ⟨KeyMap.get?_eq_some.mp he, hstart⟩
      exact List.mem_map.mpr ⟨_, hmem, rfl⟩
  · exact (KeyMap.sorted _).imp fun h => utf8_lt_utf8.mpr h

end RemoteCall.Store
