/-! Tables by number. -/
namespace RemoteCall

structure Table (α : Type) where
  entries : List (Nat × α) := []
deriving Inhabited

namespace Table
variable {α : Type}

def get? (t : Table α) (n : Nat) : Option α := (t.entries.find? fun e => e.1 == n).map (·.2)

def set (t : Table α) (n : Nat) (a : α) : Table α :=
  ⟨(n, a) :: t.entries.filter fun e => e.1 != n⟩

def length (t : Table α) : Nat := t.entries.length

@[simp] theorem get?_empty {n : Nat} : (Table.mk (α := α) []).get? n = none := rfl

@[simp] theorem get?_set {t : Table α} {n m : Nat} {a : α} :
    (t.set n a).get? m = if m = n then some a else t.get? m := by
  by_cases h : m = n
  · simp [get?, set, h]
  · have hb : (n == m) = false := by simpa using Ne.symm h
    have hp : (fun e : Nat × α => decide ((e.1 != n) = true ∧ (e.1 == m) = true)) =
        fun e => e.1 == m := by
      funext e
      by_cases he : e.1 = m
      · simp [he, h]
      · simp [he]
    simp only [get?, set, List.find?_cons, hb, List.find?_filter, hp, h, ↓reduceIte]

end Table
end RemoteCall
