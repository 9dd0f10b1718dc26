import RemoteCall.Store.Basic

/-! The log of a store only grows. -/
namespace RemoteCall.Store
variable {s : Store} {key value : String} {lease : Nat}

theorem log_foldl {α : Type} {f : Store → α → Store} (h : ∀ s a, s.log <+: (f s a).log)
    (l : List α) : s.log <+: (l.foldl f s).log := by
  induction l generalizing s with
  | nil => exact List.prefix_refl _
  | cons a rest ih => exact (h s a).trans ih

theorem log_removeKey (s : Store) (key : String) : s.log <+: (s.removeKey key).log :=
  List.prefix_append _ _

theorem log_removeLease (s : Store) (lease : Nat) : s.log <+: (s.removeLease lease).log := by
  unfold removeLease
  exact log_foldl (s := { s with leases := s.leases.filter fun e => e.1 != lease }) log_removeKey _

theorem log_revoke : s.log <+: (s.revoke lease).1.log := by
  unfold revoke
  split
  · exact List.prefix_refl _
  split
  · exact List.prefix_refl _
  · exact log_removeLease s lease

theorem log_put {lease : Option Nat} : s.log <+: (s.put key value lease).1.log := by
  unfold put
  split
  · exact List.prefix_refl _
  split
  · exact List.prefix_refl _
  · exact List.prefix_append _ _

theorem log_delete : s.log <+: (s.delete key).1.log := by
  unfold delete
  split
  · exact List.prefix_refl _
  dsimp only
  split
  · exact log_removeKey s key
  · exact List.prefix_refl _

theorem log_sweep : s.log <+: s.sweep.log := by
  unfold sweep
  split
  · exact List.prefix_refl _
  · exact log_foldl log_removeLease _

/-- Granting a lease changes no key. -/
theorem log_grant {span : Duration} : (s.grant span).1.log = s.log := by
  unfold grant
  split
  · rfl
  split
  · rfl
  dsimp only
  split
  · rfl
  · rfl

theorem log_keepAlive : (s.keepAlive lease).1.log = s.log := by
  unfold keepAlive
  split
  · rfl
  split
  · rfl
  split
  · rfl
  · rfl

end RemoteCall.Store
