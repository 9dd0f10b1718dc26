import RemoteCall.Work

/-! Work done side by side. Waits overlap; actions that fall on one time are done in the order in
which the pieces of work are given. -/
namespace RemoteCall.Work
variable {σ α β γ : Type}

/-- Works while the other piece, which has nothing to do for a span, waits; `resume` goes on with
both when the span is over, `ended` when this piece is done before. -/
def meanwhile (resume : Work σ β → Work σ γ) (ended : Nat → β → Work σ γ) :
    Nat → Work σ β → Work σ γ
  | n, done b => ended n b
  | n, act f next => act f fun s => meanwhile resume ended n (next s)
  | n, clock next => clock fun c => meanwhile resume ended n (next c)
  | n, wait span next =>
    if n ≤ span then wait n (resume (wait (span - n) next))
    else wait span (meanwhile resume ended (n - span) next)
  | n, never => wait n (resume never)
  | n, crash => wait n (resume crash)

/-- Does two pieces of work until one of them is done; what then becomes of the other is for the
caller to say. -/
def beside (left : α → Work σ β → Work σ γ) (right : Work σ α → β → Work σ γ) :
    Work σ α → Work σ β → Work σ γ
  | done a, other => left a other
  | act f next, other => act f fun s => beside left right (next s) other
  | clock next, other => clock fun c => beside left right (next c) other
  | wait span next, other =>
    meanwhile (fun other => beside left right next other)
      (fun n b => right (wait n next) b) span other
  | never, other => other.bind fun b => right never b
  | crash, other => other.bind fun b => right crash b

def all : List (Work σ α) → Work σ (List (Int × α))
  | [] => done []
  | w :: rest =>
    beside (fun a rest => rest.bind fun others => done (a :: others))
      (fun w others => w.bind fun a => done (a :: others))
      (w.bind fun a => clock fun c => done (c.mono, a)) (all rest)

/-- Goes on, unless this is good; falls back on it where nothing comes of going on. -/
def goOn (isGood : α → Bool) (o : Option α) (other : Work σ (Option α)) : Work σ (Option α) :=
  if o.any isGood then done o else other.bind fun later => done (later.or o)

/-- Does all pieces of work until one is done well; the others are then given up. If none is, the
outcome is that of the last of which something came. -/
def race (isGood : α → Bool) (first : Work σ (Option α)) :
    List (Work σ (Option α)) → Work σ (Option α)
  | [] => first
  | w :: rest =>
    beside (goOn isGood) (fun other o => goOn isGood o other) first (race isGood w rest)

end RemoteCall.Work
