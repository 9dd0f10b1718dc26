import RemoteCall.Work

/-! Work on a part of a state, such as a registry that a server shares with others. -/
namespace RemoteCall

structure Part (σ τ : Type) where
  get : σ → τ
  set : τ → σ → σ
  get_set : ∀ t s, get (set t s) = t

namespace Part
variable {σ τ : Type}

def whole : Part σ σ := ⟨fun s => s, fun t _ => t, fun _ _ => rfl⟩

def modify (part : Part σ τ) (f : τ → τ) (s : σ) : σ := part.set (f (part.get s)) s

@[simp] theorem get_modify (part : Part σ τ) (f : τ → τ) (s : σ) :
    part.get (part.modify f s) = f (part.get s) :=
  part.get_set _ s

end Part

/-- Work on a part of a state; the rest stays as it is. -/
def Work.onPart {σ τ α : Type} (part : Part σ τ) : Work τ α → Work σ α
  | done a => done a
  | act f next => act (part.modify f) fun s => (next (part.get s)).onPart part
  | clock next => clock fun c => (next c).onPart part
  | wait span next => wait span (next.onPart part)
  | never => never
  | crash => crash

theorem Work.IsIntact.onPart {σ τ α : Type} (part : Part σ τ) {w : Work τ α} (h : w.IsIntact) :
    (w.onPart part).IsIntact := by
  induction w with
  | done a => trivial
  | act f next ih => exact fun s => ih _ (h _)
  | clock next ih => exact fun c => ih c (h c)
  | wait span next ih => exact ih h
  | never => trivial
  | crash => cases h

end RemoteCall
