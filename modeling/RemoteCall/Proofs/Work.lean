import RemoteCall.Server
import RemoteCall.Work.Concurrent
import Mathlib.Data.List.Forall2

/-! What work keeps of a state.

Between two actions others may act, as long as they keep the same: pieces of work that keep
something one by one keep it side by side. -/
namespace RemoteCall.Work
variable {σ α β γ : Type} {P : σ → Prop} {Q : α → Prop} {R : β → Prop} {T : γ → Prop} {w : Work σ α}

/-- Every action keeps `P` wherever it finds it, and what the work yields satisfies `Q`. -/
inductive Keeps (P : σ → Prop) (Q : α → Prop) : Work σ α → Prop
  | done (a : α) (ha : Q a) : Keeps P Q (.done a)
  | act (f : σ → σ) (next : σ → Work σ α) (hf : ∀ s, P s → P (f s))
    (hnext : ∀ s, P s → Keeps P Q (next s)) : Keeps P Q (.act f next)
  | clock (next : Clock → Work σ α) (hnext : ∀ c, Keeps P Q (next c)) : Keeps P Q (.clock next)
  | wait (span : Nat) (next : Work σ α) (hnext : Keeps P Q next) : Keeps P Q (.wait span next)
  | never : Keeps P Q .never
  | crash : Keeps P Q .crash

theorem Keeps.weaken {Q' : α → Prop} (hw : w.Keeps P Q) (h : ∀ a, Q a → Q' a) : w.Keeps P Q' := by
  induction hw with
  | done a ha => exact .done a (h a ha)
  | act f next hf hnext ih => exact .act f _ hf ih
  | clock next hnext ih => exact .clock _ ih
  | wait span next hnext ih => exact .wait span _ ih
  | never => exact .never
  | crash => exact .crash

theorem keeps_pure {a : α} (ha : Q a) : (pure a : Work σ α).Keeps P Q := .done a ha

/-- Two pieces of work keep together what each of them keeps. -/
theorem keeps_bind {k : α → Work σ β} (hw : w.Keeps P Q) (hk : ∀ a, Q a → (k a).Keeps P R) :
    (w >>= k).Keeps P R := by
  change (w.bind k).Keeps P R
  induction hw with
  | done a ha => exact hk a ha
  | act f next hf hnext ih => exact .act f _ hf ih
  | clock next hnext ih => exact .clock _ ih
  | wait span next hnext ih => exact .wait span _ ih
  | never => exact .never
  | crash => exact .crash

/-- The work can come to this outcome, or break down and come to none, if the state and the clocks
are what it takes. -/
inductive Yields {σ α : Type} : Work σ α → Option α → Prop
  | done (a : α) : Yields (.done a) (some a)
  | act {f : σ → σ} {next : σ → Work σ α} {o : Option α} (s : σ) (h : Yields (next s) o) :
    Yields (.act f next) o
  | clock {next : Clock → Work σ α} {o : Option α} (c : Clock) (h : Yields (next c) o) :
    Yields (.clock next) o
  | wait {span : Nat} {next : Work σ α} {o : Option α} (h : Yields next o) :
    Yields (.wait span next) o
  | crash : Yields .crash none

/-- What goes on after a task breaks down by itself, if it does. -/
theorem caught_caught_bind (w : Work σ α) (k : Option α → Work σ β) :
    (w.caught.bind k).caught = w.caught.bind fun o => (k o).caught := by
  induction w with
  | done a => rfl
  | act f next ih => exact congrArg (Work.act f) (funext ih)
  | clock next ih => exact congrArg Work.clock (funext ih)
  | wait span next ih => exact congrArg (Work.wait span) ih
  | never => rfl
  | crash => rfl

/-- What follows need only be intact after what the work can come to. -/
theorem IsIntact.bind {k : α → Work σ β} (h : w.IsIntact)
    (hk : ∀ a, w.Yields (some a) → (k a).IsIntact) : (w >>= k).IsIntact := by
  change (w.bind k).IsIntact
  induction w with
  | done a => exact hk a (.done a)
  | act f next ih => exact fun s => ih s (h s) fun a ha => hk a (.act s ha)
  | clock next ih => exact fun c => ih c (h c) fun a ha => hk a (.clock c ha)
  | wait span next ih => exact ih h fun a ha => hk a (.wait ha)
  | never => trivial
  | crash => cases h

theorem IsIntact.limit (h : w.IsIntact) (tie : Bool) (n : Nat) : (w.limit tie n).IsIntact := by
  induction w generalizing n with
  | done a => trivial
  | act f next ih => exact fun s => ih s (h s) n
  | clock next ih => exact fun c => ih c (h c) n
  | wait span next ih =>
    rw [Work.limit]
    split
    · exact ih h (n - span)
    · trivial
  | never => trivial
  | crash => cases h

theorem IsIntact.timeLimit {w : Work σ (Result α)} (h : w.IsIntact) (span : Duration)
    (late : Error) : (w.timeLimit span late).IsIntact :=
  fun _ => (h.limit _ _).bind fun _ _ => trivial

/-- Nor does it break down where a context bounds it. -/
theorem IsIntact.bound {w : Work σ (Result α)} (h : w.IsIntact) (context : Context)
    (cancels : Cancels) : (context.bound cancels w).IsIntact := by
  intro now
  dsimp only
  split
  · trivial
  · exact h
  · exact (h.limit _ _).bind fun _ _ => trivial

theorem keeps_get : (get : Work σ σ).Keeps P P := .act id done (fun _ => id) fun s hs => .done s hs

theorem keeps_modify {f : σ → σ} (hf : ∀ s, P s → P (f s)) : (modify f).Keeps P fun _ => True :=
  .act f _ hf fun _ _ => .done () trivial

theorem keeps_sleep {span : Nat} : (sleep span : Work σ Unit).Keeps P fun _ => True :=
  .wait span _ (.done () trivial)

/-- Work under a limit keeps what it keeps without. -/
theorem keeps_limit {tie : Bool} {n : Nat} (hw : w.Keeps P Q) :
    (w.limit tie n).Keeps P fun o => ∀ a, o = some a → Q a := by
  have hlate : (wait n (done none) : Work σ (Option α)).Keeps P fun o => ∀ a, o = some a → Q a :=
    .wait n _ (.done none nofun)
  induction hw generalizing n with
  | done a ha =>
    refine .done (some a) fun b hb => ?_
    cases hb
    exact ha
  | act f next hf hnext ih => exact .act f _ hf fun s hs => ih s hs hlate
  | clock next hnext ih => exact .clock _ fun c => ih c hlate
  | wait span next hnext ih =>
    rw [limit]
    split
    · exact .wait span _ (ih (.wait _ _ (.done none nofun)))
    · exact hlate
  | never => exact hlate
  | crash => exact .crash

/-- What comes of a task is what comes of the work, if anything does. -/
theorem keeps_caught (hw : w.Keeps P Q) : w.caught.Keeps P fun o => ∀ a, o = some a → Q a := by
  induction hw with
  | done a ha =>
    refine .done (some a) fun b hb => ?_
    cases hb
    exact ha
  | act f next hf hnext ih => exact .act f _ hf ih
  | clock next hnext ih => exact .clock _ ih
  | wait span next hnext ih => exact .wait span _ ih
  | never => exact .never
  | crash => exact .done none nofun

/-- A limit that turns into an error keeps what holds of errors and of outcomes. -/
theorem keeps_timeLimit {Q : Result α → Prop} {w : Work σ (Result α)} {span : Duration}
    {late : Error} (hw : w.Keeps P Q) (hlate : Q (.error late)) :
    (w.timeLimit span late).Keeps P Q := by
  refine .clock _ fun now => keeps_bind (keeps_limit hw) fun o ho => keeps_pure ?_
  cases o with
  | none => exact hlate
  | some a => exact ho a rfl

theorem keeps_bound {Q : Result α → Prop} {w : Work σ (Result α)} {context : Context}
    {cancels : Cancels} (hw : w.Keeps P Q) (he : ∀ e, Q (.error e)) :
    (context.bound cancels w).Keeps P Q := by
  refine .clock _ fun now => ?_
  split
  · exact keeps_pure (he _)
  · exact hw
  · refine keeps_bind (keeps_limit hw) fun o ho => keeps_pure ?_
    cases o with
    | none => exact he _
    | some a => exact ho a rfl

/-- What work keeps holds after it has run. -/
theorem keeps_run {c : Clock} {s : σ} (hw : w.Keeps P Q) (hs : P s) :
    P (w.run c s).2.2 ∧ ∀ a, (w.run c s).1 = some a → Q a := by
  induction hw generalizing c s with
  | done a ha =>
    refine ⟨hs, fun b hb => ?_⟩
    cases hb
    exact ha
  | act f next hf hnext ih => exact ih s hs (hf s hs)
  | clock next hnext ih => exact ih c hs
  | wait span next hnext ih => exact ih hs
  | never => exact ⟨hs, nofun⟩
  | crash => exact ⟨hs, nofun⟩

theorem keeps_meanwhile {resume : Work σ β → Work σ γ} {ended : Nat → β → Work σ γ} {n : Nat}
    {w : Work σ β} (hw : w.Keeps P R) (hresume : ∀ w : Work σ β, w.Keeps P R → (resume w).Keeps P T)
    (hended : ∀ n b, R b → (ended n b).Keeps P T) : (meanwhile resume ended n w).Keeps P T := by
  induction hw generalizing n with
  | done b hb => exact hended n b hb
  | act f next hf hnext ih => exact .act f _ hf fun s hs => ih s hs
  | clock next hnext ih => exact .clock _ fun c => ih c
  | wait span next hnext ih =>
    rw [meanwhile]
    split
    · exact .wait n _ (hresume _ (.wait _ _ hnext))
    · exact .wait span _ ih
  | never => exact .wait n _ (hresume _ .never)
  | crash => exact .wait n _ (hresume _ .crash)

/-- Two pieces side by side keep what both keep, whichever is done first. -/
theorem keeps_beside {left : α → Work σ β → Work σ γ} {right : Work σ α → β → Work σ γ}
    {v : Work σ β} (hw : w.Keeps P Q) (hv : v.Keeps P R)
    (hleft : ∀ a (v : Work σ β), Q a → v.Keeps P R → (left a v).Keeps P T)
    (hright : ∀ (w : Work σ α) b, w.Keeps P Q → R b → (right w b).Keeps P T) :
    (beside left right w v).Keeps P T := by
  -- on the first piece; where it waits, the second goes on, and then `keeps_meanwhile` applies
  induction hw generalizing v with
  | done a ha => exact hleft a v ha hv
  | act f next hf hnext ih => exact .act f _ hf fun s hs => ih s hs hv
  | clock next hnext ih => exact .clock _ fun c => ih c hv
  | wait span next hnext ih =>
    exact keeps_meanwhile hv (fun v hv => ih hv) fun n b hb => hright _ b (.wait n _ hnext) hb
  | never => exact keeps_bind hv fun b hb => hright _ b .never hb
  | crash => exact keeps_bind hv fun b hb => hright _ b .crash hb

/-- Pieces of work that keep something keep it when they are done at once, and each of them yields
what it would yield. -/
theorem keeps_all {ι : Type} {l : List ι} {work : ι → Work σ α} {Q : ι → α → Prop}
    (hw : ∀ i ∈ l, (work i).Keeps P (Q i)) :
    (all (l.map work)).Keeps P fun outcomes => List.Forall₂ (fun i o => Q i o.2) l outcomes := by
  induction l with
  | nil => exact .done [] .nil
  | cons i l ih =>
    have hrest := ih fun j hj => hw j (List.mem_cons_of_mem i hj)
    have hfirst : ((work i).bind fun a => clock fun c => done (c.mono, a)).Keeps P
        fun o => Q i o.2 :=
      keeps_bind (hw i List.mem_cons_self) fun a ha => .clock _ fun c => .done _ ha
    refine keeps_beside hfirst hrest (fun a v ha hv => ?_) fun v others hv hothers => ?_
    · exact keeps_bind hv fun others hothers => .done _ (.cons ha hothers)
    · exact keeps_bind hv fun a ha => .done _ (.cons ha hothers)

end RemoteCall.Work
