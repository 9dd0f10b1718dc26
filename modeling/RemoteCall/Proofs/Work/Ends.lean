import RemoteCall.Work

/-! Work that ends: what holds of its outcome, and of the clocks and the state after it. -/
namespace RemoteCall

def Clock.LeadsTo (c c' : Clock) : Prop := ∃ span, c' = c.advance span

theorem Clock.LeadsTo.refl (c : Clock) : c.LeadsTo c := ⟨0, c.advance_zero.symm⟩

theorem Clock.LeadsTo.trans {c c' c'' : Clock} (h : c.LeadsTo c') (h' : c'.LeadsTo c'') :
    c.LeadsTo c'' := by
  obtain ⟨m, rfl⟩ := h
  obtain ⟨n, rfl⟩ := h'
  exact ⟨m + n, c.advance_advance m n⟩

namespace Work
variable {σ α β : Type} {w : Work σ α} {c : Clock} {s : σ} {Q : α → Clock → σ → Prop}

/-- Begun with these clocks and this state, the work ends, and then `Q` holds. -/
def Ends (w : Work σ α) (c : Clock) (s : σ) (Q : α → Clock → σ → Prop) : Prop :=
  ∃ a c' s', w.run c s = (some a, c', s') ∧ Q a c' s'

theorem Ends.mono {R : α → Clock → σ → Prop} (hw : w.Ends c s Q)
    (h : ∀ a c' s', Q a c' s' → R a c' s') : w.Ends c s R := by
  obtain ⟨a, c', s', hrun, ha⟩ := hw
  exact ⟨a, c', s', hrun, h a c' s' ha⟩

theorem ends_pure {a : α} (h : Q a c s) : (pure a : Work σ α).Ends c s Q := ⟨a, c, s, rfl, h⟩

theorem ends_clock {next : Clock → Work σ α} (h : (next c).Ends c s Q) : (clock next).Ends c s Q :=
  h

theorem ends_sleep {span : Nat} {Q : Unit → Clock → σ → Prop} (h : Q () (c.advance span) s) :
    (sleep span).Ends c s Q := ⟨(), _, s, rfl, h⟩

/-- Work that ends is followed by what comes of its outcome. -/
theorem run_bind {k : α → Work σ β} {a : α} {c' : Clock} {s' : σ}
    (hw : w.run c s = (some a, c', s')) : (w >>= k).run c s = (k a).run c' s' := by
  change (w.bind k).run c s = _
  induction w generalizing c s with
  | done b =>
    cases hw
    rfl
  | act f next ih => exact ih _ hw
  | clock next ih => exact ih _ hw
  | wait span next ih => exact ih hw
  | never => cases hw
  | crash => cases hw

/-- Nothing follows work that never ends, or that breaks down. -/
theorem run_bind_of_none {k : α → Work σ β} {c' : Clock} {s' : σ}
    (hw : w.run c s = (none, c', s')) : (w >>= k).run c s = (none, c', s') := by
  change (w.bind k).run c s = _
  induction w generalizing c s with
  | done b => cases hw
  | act f next ih => exact ih _ hw
  | clock next ih => exact ih _ hw
  | wait span next ih => exact ih hw
  | never =>
    cases hw
    rfl
  | crash =>
    cases hw
    rfl

theorem run_clock (next : Clock → Work σ α) (c : Clock) (s : σ) :
    (clock next).run c s = (next c).run c s := rfl

/-- To look at the state is to go on with it. -/
theorem run_get_bind (k : σ → Work σ α) (c : Clock) (s : σ) : (get >>= k).run c s = (k s).run c s :=
  rfl

theorem run_map (f : α → β) (w : Work σ α) (c : Clock) (s : σ) :
    (f <$> w).run c s = ((w.run c s).1.map f, (w.run c s).2) := by
  change (w.bind fun a => done (f a)).run c s = _
  induction w generalizing c s with
  | done a => rfl
  | act g next ih => exact ih s c (g s)
  | clock next ih => exact ih c c s
  | wait span next ih => exact ih (c.advance span) s
  | never => rfl
  | crash => rfl

/-- Two pieces of work end together if each of them ends. -/
theorem ends_bind {k : α → Work σ β} {R : β → Clock → σ → Prop}
    (hw : w.Ends c s fun a c' s' => (k a).Ends c' s' R) : (w >>= k).Ends c s R := by
  obtain ⟨a, c', s', hrun, b, c'', s'', hrest, hb⟩ := hw
  exact ⟨b, c'', s'', (run_bind hrun).trans hrest, hb⟩

/-- The clocks go on alike while work is done. -/
theorem leadsTo_run (w : Work σ α) (c : Clock) (s : σ) : c.LeadsTo (w.run c s).2.1 := by
  induction w generalizing c s with
  | done a => exact .refl c
  | act f next ih => exact ih s c (f s)
  | clock next ih => exact ih c c s
  | wait span next ih => exact Clock.LeadsTo.trans ⟨span, rfl⟩ (ih (c.advance span) s)
  | never => exact .refl c
  | crash => exact .refl c

/-- Time only passes while work is done. -/
theorem Ends.leadsTo (hw : w.Ends c s Q) : w.Ends c s fun a c' s' => c.LeadsTo c' ∧ Q a c' s' := by
  obtain ⟨a, c', s', hrun, ha⟩ := hw
  have hleads := w.leadsTo_run c s
  rw [hrun] at hleads
  exact ⟨a, c', s', hrun, hleads, ha⟩

/-- A limit only ever cuts: where the work ends within it, or breaks down, all is as without. -/
theorem run_limit (tie : Bool) (n : Nat) (w : Work σ α) (c : Clock) (s : σ) :
    ((w.limit tie n).run c s).1 = some none ∨
      ∃ o c' s', (w.limit tie n).run c s = (o.map some, c', s') ∧ w.run c s = (o, c', s') := by
  induction w generalizing n c s with
  | done a => exact .inr ⟨some a, c, s, rfl, rfl⟩
  | act f next ih => exact ih s n c (f s)
  | clock next ih => exact ih c n c s
  | wait span next ih =>
    -- a wait uses up the limit, or the limit ends it
    rw [limit]
    split
    · exact ih (n - span) (c.advance span) s
    · exact .inl rfl
  | never => exact .inl rfl
  | crash => exact .inr ⟨none, c, s, rfl, rfl⟩

/-- Where nobody waits longer than for a span, work that does not break down comes to an end. -/
theorem exists_run_limit {w : Work σ α} (hw : w.IsIntact) (tie : Bool) (n : Nat) (c : Clock)
    (s : σ) : ∃ o c' s', (w.limit tie n).run c s = (some o, c', s') := by
  induction w generalizing n c s with
  | done a => exact ⟨_, c, s, rfl⟩
  | act f next ih => exact ih s (hw s) n c (f s)
  | clock next ih => exact ih c (hw c) n c s
  | wait span next ih =>
    rw [limit]
    split
    · exact ih hw (n - span) (c.advance span) s
    · exact ⟨none, _, s, rfl⟩
  | never => exact ⟨none, _, s, rfl⟩
  | crash => cases hw

/-- Where nobody waits longer than for a span, a task comes to an end. -/
theorem exists_run_limit_caught (tie : Bool) (n : Nat) (w : Work σ α) (c : Clock) (s : σ) :
    ∃ o c' s', (w.caught.limit tie n).run c s = (some o, c', s') :=
  exists_run_limit w.intact_caught tie n c s

/-- A context bounds work: an outcome is that of the work, or the reason why the context finished.
-/
theorem ends_bound {cancels : Cancels} {context : Context} {w : Work σ (Result α)}
    {R : Result α → Prop} (hw : w.Ends c s fun a _ _ => R a) (he : ∀ e, R (.error e)) :
    (context.bound cancels w).Ends c s fun a _ _ => R a := by
  -- by when the context finishes: before the work, never, or at a time
  refine ends_clock ?_
  split
  · exact ends_pure (he _)
  · exact hw
  · rename_i t e _ _
    apply ends_bind
    obtain hcut | ⟨o, c', s', hlimit, hrun⟩ := run_limit false (t - c.mono).toNat w c s
    · exact ⟨none, _, _, Prod.ext hcut rfl, ends_pure (he e)⟩
    · obtain ⟨a, _, _, hrun', ha⟩ := hw
      obtain rfl : o = some a := congrArg Prod.fst (hrun.symm.trans hrun')
      exact ⟨some a, c', s', hlimit, ends_pure ha⟩

/-- A context that never finishes bounds nothing. -/
theorem ends_bound_of_none {cancels : Cancels} {context : Context} {w : Work σ (Result α)}
    {R : Result α → Clock → σ → Prop} (hdeadline : context.deadline = none)
    (hcancels : cancels context.scope = none) (hw : w.Ends c s R) :
    (context.bound cancels w).Ends c s R := by
  have hfinished : context.finished? cancels c.mono = none := by
    simp only [Context.finished?, Context.error?, Context.isExpired, hcancels,
      hdeadline, Option.any_none, Bool.false_eq_true, ↓reduceIte]
  have hfinish : context.finish? (cancels context.scope) = none := by
    simp only [Context.finish?, hcancels, hdeadline]
  refine ends_clock ?_
  rw [hfinished, hfinish]
  exact hw

end Work
end RemoteCall
