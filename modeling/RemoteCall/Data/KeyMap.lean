/-! Maps from text keys, kept in key order.

Header entries are written in key order and stores are scanned in key order, so the order of the
keys belongs to the type. Two maps with the same entries are equal. -/
namespace RemoteCall

/-- Entries in strictly increasing key order. -/
structure KeyMap (α : Type) where
  entries : List (String × α)
  sorted : entries.Pairwise fun a b => a.1 < b.1

namespace KeyMap
variable {α β : Type}

theorem ext_entries : {a b : KeyMap α} → a.entries = b.entries → a = b
  | ⟨_, _⟩, ⟨_, _⟩, rfl => rfl

instance [DecidableEq α] : DecidableEq (KeyMap α) := fun a b =>
  if h : a.entries = b.entries then isTrue (ext_entries h)
  else isFalse fun e => h (congrArg entries e)

instance [Repr α] : Repr (KeyMap α) := ⟨fun m p => reprPrec m.entries p⟩

def empty : KeyMap α := ⟨[], List.Pairwise.nil⟩

instance : Inhabited (KeyMap α) := ⟨empty⟩

/-- Places an entry in front of the first larger key, in place of an equal one. -/
def insertEntry (key : String) (value : α) : List (String × α) → List (String × α)
  | [] => [(key, value)]
  | head :: rest =>
    if key < head.1 then (key, value) :: head :: rest
    else if key = head.1 then (key, value) :: rest
    else head :: insertEntry key value rest

theorem mem_insertEntry {key : String} {value : α} {e : String × α} {l : List (String × α)}
    (h : e ∈ insertEntry key value l) : e = (key, value) ∨ e ∈ l := by
  induction l with
  | nil => simpa [insertEntry] using h
  | cons head rest ih =>
    rw [insertEntry] at h
    split at h
    · simpa using h
    · split at h
      · rcases List.mem_cons.1 h with h | h
        · exact .inl h
        · exact .inr (List.mem_cons_of_mem _ h)
      · rcases List.mem_cons.1 h with h | h
        · exact .inr (by simp [h])
        · exact (ih h).imp_right (List.mem_cons_of_mem _)

theorem lt_of_not_lt_of_ne {a b : String} (h : ¬ a < b) (ne : a ≠ b) : b < a := by
  rcases Decidable.em (b < a) with hb | hb
  · exact hb
  · exact absurd (String.le_antisymm (String.not_lt.1 hb) (String.not_lt.1 h)) ne

/-- Placing an entry keeps the keys in order. -/
theorem sorted_insertEntry (key : String) (value : α) {l : List (String × α)}
    (h : l.Pairwise fun a b => a.1 < b.1) :
    (insertEntry key value l).Pairwise fun a b => a.1 < b.1 := by
  induction l with
  | nil => simp [insertEntry]
  | cons head rest ih =>
    have ⟨hd, tl⟩ := List.pairwise_cons.1 h
    rw [insertEntry]
    split
    · rename_i lt
      refine List.pairwise_cons.2 ⟨fun e he => ?_, h⟩
      rcases List.mem_cons.1 he with rfl | he
      · exact lt
      · exact String.lt_trans lt (hd e he)
    · split
      · rename_i eq
        exact List.pairwise_cons.2 ⟨fun e he => eq ▸ hd e he, tl⟩
      · rename_i nlt ne
        refine List.pairwise_cons.2 ⟨fun e he => ?_, ih tl⟩
        rcases mem_insertEntry he with rfl | he
        · exact lt_of_not_lt_of_ne nlt ne
        · exact hd e he

def insert (m : KeyMap α) (key : String) (value : α) : KeyMap α :=
  ⟨insertEntry key value m.entries, sorted_insertEntry key value m.sorted⟩

def filter (m : KeyMap α) (keep : String → α → Bool) : KeyMap α :=
  ⟨m.entries.filter fun e => keep e.1 e.2, m.sorted.filter _⟩

def erase (m : KeyMap α) (key : String) : KeyMap α := m.filter fun k _ => k != key

def map (f : α → β) (m : KeyMap α) : KeyMap β :=
  ⟨m.entries.map fun e => (e.1, f e.2), List.pairwise_map.mpr m.sorted⟩

def get? (m : KeyMap α) (key : String) : Option α :=
  (m.entries.find? fun e => e.1 == key).map (·.2)

def contains (m : KeyMap α) (key : String) : Bool := (m.get? key).isSome

def keys (m : KeyMap α) : List String := m.entries.map (·.1)

/-- Inserts the entries one after the other: a later one replaces an earlier one of its key. -/
def insertAll (m : KeyMap α) (entries : List (String × α)) : KeyMap α :=
  entries.foldl (fun m e => m.insert e.1 e.2) m

def ofList (entries : List (String × α)) : KeyMap α := empty.insertAll entries

/-- All entries of `top` replace those of `m`. -/
def overlay (m top : KeyMap α) : KeyMap α := m.insertAll top.entries

end KeyMap
end RemoteCall
