/-! Sequences of partial computations, taken apart at the first step. -/
namespace RemoteCall
variable {ε α β : Type} {x : Except ε α} {f : α → Except ε β}

theorem bind_eq_ok {b : β} : (x >>= f) = .ok b ↔ ∃ a, x = .ok a ∧ f a = .ok b := by
  cases x with
  | ok a =>
    simp only [Except.ok.injEq, exists_eq_left']
    rfl
  | error e =>
    simp only [reduceCtorEq, false_and, exists_false, iff_false]
    exact fun h => by cases h

theorem seq_eq_ok {x : Except ε Unit} {y : Except ε β} {b : β} :
    (x >>= fun _ => y) = .ok b ↔ x = .ok () ∧ y = .ok b := by
  rw [bind_eq_ok]
  exact ⟨fun ⟨_, hx, hy⟩ => ⟨hx, hy⟩, fun ⟨hx, hy⟩ => ⟨(), hx, hy⟩⟩

theorem bind_eq_error {e : ε} :
    (x >>= f) = .error e ↔ x = .error e ∨ ∃ a, x = .ok a ∧ f a = .error e := by
  cases x with
  | ok a =>
    simp only [reduceCtorEq, false_or, Except.ok.injEq, exists_eq_left']
    rfl
  | error e' =>
    simp only [reduceCtorEq, false_and, exists_false, or_false]
    constructor <;> (intro h; cases h; rfl)

/-- A check that gives up if a condition holds, and goes on otherwise. -/
theorem throw_or_eq_ok {p : Prop} [Decidable p] {e : ε} {next : PUnit → Except ε β} {b : β} :
    (if p then (throw e : Except ε PUnit) >>= next else next ⟨⟩) = .ok b ↔
    ¬ p ∧ next ⟨⟩ = .ok b := by
  by_cases hp : p
  · rw [if_pos hp]
    exact ⟨nofun, fun h => absurd hp h.1⟩
  · rw [if_neg hp]
    exact ⟨fun h => ⟨hp, h⟩, fun h => h.2⟩

theorem mapError_eq_ok {δ : Type} {g : ε → δ} {a : α} : x.mapError g = .ok a ↔ x = .ok a := by
  cases x with
  | ok b =>
    have hmap : (Except.ok b : Except ε α).mapError g = .ok b := rfl
    rw [hmap, Except.ok.injEq, Except.ok.injEq]
  | error e =>
    have hmap : (Except.error e : Except ε α).mapError g = .error (g e) := rfl
    simp only [hmap, reduceCtorEq]

theorem mapError_eq_error {δ : Type} {g : ε → δ} {d : δ} :
    x.mapError g = .error d ↔ ∃ e, x = .error e ∧ g e = d := by
  cases x with
  | ok a =>
    have hmap : (Except.ok a : Except ε α).mapError g = .ok a := rfl
    simp only [hmap, reduceCtorEq, false_and, exists_false]
  | error e =>
    have hmap : (Except.error e : Except ε α).mapError g = .error (g e) := rfl
    simp only [hmap, Except.error.injEq, exists_eq_left']

end RemoteCall
