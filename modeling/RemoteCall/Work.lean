import RemoteCall.Context.Basic

/-! Work that takes time, over a state.

Work is made of actions, which take no time, and of waits. A limit can cut it at a wait: what was
done before stays done, and nothing of the rest happens. Work can also break down, and then nothing
comes of it. -/
namespace RemoteCall

inductive Work (σ α : Type) where
  | done (a : α)
  /-- Changes the state; what follows may depend on the state before the change. -/
  | act (f : σ → σ) (next : σ → Work σ α)
  /-- Reads the clocks. -/
  | clock (next : Clock → Work σ α)
  | wait (span : Nat) (next : Work σ α)
  /-- Waits without an end. -/
  | never
  /-- Breaks down. -/
  | crash

namespace Work
variable {σ α β : Type}

def bind : Work σ α → (α → Work σ β) → Work σ β
  | done a, k => k a
  | act f next, k => act f fun s => (next s).bind k
  | clock next, k => clock fun c => (next c).bind k
  | wait span next, k => wait span (next.bind k)
  | never, _ => never
  | crash, _ => crash

instance : Monad (Work σ) where
  pure := done
  bind := bind

theorem bind_done (w : Work σ α) : w.bind done = w := by
  induction w with
  | done => rfl
  | act f next ih => simp [bind, ih]
  | clock next ih => simp [bind, ih]
  | wait span next ih => simp [bind, ih]
  | never => rfl
  | crash => rfl

theorem bind_assoc {γ : Type} (w : Work σ α) (k : α → Work σ β) (l : β → Work σ γ) :
    (w.bind k).bind l = w.bind fun a => (k a).bind l := by
  induction w with
  | done => rfl
  | act f next ih => simp [bind, ih]
  | clock next ih => simp [bind, ih]
  | wait span next ih => simp [bind, ih]
  | never => rfl
  | crash => rfl

instance : LawfulMonad (Work σ) :=
  LawfulMonad.mk' (Work σ) (fun w => bind_done w) (fun _ _ => rfl) bind_assoc

def get : Work σ σ := act id done

def modify (f : σ → σ) : Work σ Unit := act f fun _ => done ()

def modifyGet (f : σ → α × σ) : Work σ α := act (fun s => (f s).2) fun s => done (f s).1

def sleep (span : Nat) : Work σ Unit := wait span (done ())

/-- The work, unless a limit of time comes first. Work that ends just at the limit counts if `tie`
says so. -/
def limit (tie : Bool) : Nat → Work σ α → Work σ (Option α)
  | _, done a => done (some a)
  | n, act f next => act f fun s => limit tie n (next s)
  | n, clock next => clock fun c => limit tie n (next c)
  | n, wait span next =>
    if span < n || (tie && span == n) then wait span (limit tie (n - span) next) else wait n
      (done none)
  | n, never => wait n (done none)
  | _, crash => crash

/-- The work as a task of its own: nothing comes of it where it breaks down. -/
def caught : Work σ α → Work σ (Option α)
  | done a => done (some a)
  | act f next => act f fun s => (next s).caught
  | clock next => clock fun c => (next c).caught
  | wait span next => wait span next.caught
  | never => never
  | crash => done none

def IsIntact : Work σ α → Prop
  | done _ => True
  | act _ next => ∀ s, (next s).IsIntact
  | clock next => ∀ c, (next c).IsIntact
  | wait _ next => next.IsIntact
  | never => True
  | crash => False

/-- Nothing breaks down that is caught. -/
theorem intact_caught (w : Work σ α) : w.caught.IsIntact := by
  induction w with
  | done a => trivial
  | act f next ih => exact ih
  | clock next ih => exact ih
  | wait span next ih => exact ih
  | never => trivial
  | crash => trivial

/-- The outcome of the work, with the clocks and the state after it. There is no outcome if it never
ends or breaks down. -/
def run : Work σ α → Clock → σ → Option α × Clock × σ
  | done a, c, s => (some a, c, s)
  | act f next, c, s => (next s).run c (f s)
  | clock next, c, s => (next c).run c s
  | wait span next, c, s => next.run (c.advance span) s
  | never, c, s => (none, c, s)
  | crash, c, s => (none, c, s)

end Work

abbrev Cancels := Nat → Option Int

/-- One scope is cancelled from the beginning, no other ever is. -/
def Cancels.only (scope : Nat) : Cancels := fun s => if s == scope then some 0 else none

namespace Context
variable {σ α : Type}

/-- Why the context is finished by now, if it is. -/
def finished? (cancels : Cancels) (c : Context) (now : Int) : Option Error :=
  c.error? ((cancels c.scope).any fun t => t ≤ now) now

def askFinished (cancels : Cancels) (c : Context) : Work σ (Option Error) :=
  .clock fun now => pure (c.finished? cancels now.mono)

/-- The work, unless the context finishes first or at the same time. A finished context does not
begin it. -/
def bound (cancels : Cancels) (c : Context) (work : Work σ (Result α)) : Work σ (Result α) :=
  .clock fun now =>
    match c.finished? cancels now.mono, c.finish? (cancels c.scope) with
    | some e, _ => pure (.error e)
    | none, none => work
    | none, some (t, e) => do
      let outcome ← work.limit false (t - now.mono).toNat
      pure (outcome.getD (.error e))

end Context
end RemoteCall
