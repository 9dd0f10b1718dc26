import RemoteCall.Proofs.Cluster.Reach
import RemoteCall.Proofs.Cluster.Schedule
import RemoteCall.Proofs.Connection.Call

/-! A broadcast delivers one reply of each instance that was ready when it began. -/
namespace RemoteCall
namespace Broadcast
variable {σ : Type} {s t : Broadcast σ} {actions : List (Action σ)} {calls : Calls σ}

end Broadcast

namespace Cluster
variable {ω : Type} {network : Network (Cluster ω)} {cancels : Cancels}
  {interceptors : List (Interceptor (Work (Cluster ω)))} {c c' : Cluster ω} {clock clock' : Clock}
  {context : Context} {request : Request}

theorem branches_ne_nil (h : c.balancer.ready ≠ []) :
    c.branches network cancels interceptors context request ≠ [] :=
  fun hnil => h (List.map_eq_nil_iff.mp hnil)

/-- What a broadcast yields that runs to its end, a reader can get from the stream. -/
theorem reaches_broadcast (h : c.balancer.ready ≠ []) {replies : List InstanceReply}
    (hrun : (broadcast network cancels interceptors context request).run clock c =
      (some (.ok replies), clock', c')) :
    ∃ s,
      (Broadcast.start clock c
        (c.branches network cancels interceptors context request)).Reaches s ∧
      s.ended = true ∧ s.received = replies ∧ s.clock = clock' ∧ s.state = c' := by
  obtain ⟨first, rest, hbranches⟩ := List.exists_cons_of_ne_nil
    (branches_ne_nil h : c.branches network cancels interceptors context request ≠ [])
  rw [broadcast, Work.run_get_bind, hbranches] at hrun
  rw [hbranches]
  -- the calls come to an end, and their replies are put in the order of time
  rcases hall : (Work.all ((first :: rest).map fun call =>
    Option.map (InstanceReply.mk call.1) <$> call.2.caught)).run clock
      c with ⟨_ | outcomes, clock₁, c₁⟩
  · have hnone := hrun.symm.trans (Work.run_bind_of_none hall)
    cases hnone
  · have hsome := hrun.symm.trans (Work.run_bind hall)
    cases hsome
    obtain ⟨t, hreaches, hended, hreceived, hclock, hstate⟩ :=
      Broadcast.reaches_ended (first :: rest)
      (List.cons_ne_nil _ _) hall ((List.mergeSort_perm outcomes fun a b => a.1 ≤ b.1).map (·.2))
    refine ⟨t, hreaches, hended, hreceived.trans ?_, hclock, hstate⟩
    rw [List.flatMap_map, List.filterMap_eq_flatMap_toList]

end Cluster
end RemoteCall
