import RemoteCall.Proofs.Registry.Feed

/-! Until all that can be received is received.

An open subscription is stuck only when nothing is left to do: whoever is closest to the receiver
and has something to pass on finds room for it. Each action brings a change one place nearer to the
receiver, and a change has five places to go through. -/
namespace RemoteCall.Feed
open Store (Change Notice Watch)
variable {f : Feed} {log : List Change} {scope : String} {start : Nat}
  {lost : Nat → Prop} {n : Notice}

theorem isOpen_receive (ho : f.IsOpen) : f.receive.IsOpen := by
  unfold receive
  split
  · exact ho
  · exact ⟨ho.cancelled, ho.left⟩

theorem isOpen_forward (ho : f.IsOpen) (h : f.Follows log scope start lost) : f.forward.IsOpen := by
  unfold forward
  split
  · exact ho
  split
  · split
    · rename_i hleft
      exact absurd hleft (ne_true_of_eq_false ho.left)
    split
    · exact ⟨ho.cancelled, ho.left⟩
    · exact ho
  · cases hqueue : f.watch.queue with
    | nil =>
      simp only [Watch.receive, hqueue, List.head?_nil]
      split
      · -- a watch that follows the log has not stopped
        rename_i hstopped
        exact absurd hstopped (ne_true_of_eq_false h.stopped)
      · exact ho
    | cons n rest =>
      simp only [Watch.receive, hqueue, List.head?_cons]
      exact ⟨ho.cancelled, ho.left⟩

/-- To advance is to receive, to forward or to look. -/
theorem advance_eq (f : Feed) (log : List Change) :
    f.advance log = f.receive ∨ f.advance log = f.forward ∨ f.advance log = f.look log := by
  unfold advance
  split
  · exact .inl rfl
  split
  · exact .inr (.inl rfl)
  · exact .inr (.inr rfl)

theorem pending_receive {rest : List Notice} (hqueue : f.queue = n :: rest) :
    f.receive.pending log < f.pending log := by
  rw [receive, hqueue]
  simp only [pending, hqueue, List.length_cons]
  omega

theorem pending_forward_of_some (ho : f.IsOpen) (h : f.Follows log scope start lost)
    (hhand : f.inHand = some n) (hroom : f.queue.length < Store.queueCapacity) :
    f.forward.pending log < f.pending log := by
  rw [forward, if_neg (ne_true_of_eq_false h.ended), hhand]
  dsimp only
  rw [if_neg (ne_true_of_eq_false ho.left), if_pos hroom]
  simp only [pending, hhand, Option.toList_some, Option.toList_none,
    List.length_cons, List.length_nil, List.length_append]
  omega

theorem pending_forward_of_none {rest : List Notice} (h : f.Follows log scope start lost)
    (hhand : f.inHand = none) (hwaiting : f.watch.queue = n :: rest) :
    f.forward.pending log < f.pending log := by
  rw [forward, if_neg (ne_true_of_eq_false h.ended), hhand]
  simp only [Watch.receive, hwaiting, List.head?_cons, List.drop_succ_cons, List.drop_zero, pending,
    hhand, Option.toList_some, Option.toList_none, List.length_cons, List.length_nil]
  omega

theorem pending_look_of_some (h : f.Follows log scope start lost) (hhand : f.watch.inHand = some n)
    (hroom : f.watch.queue.length < Store.queueCapacity) :
    (f.look log).pending log < f.pending log := by
  rw [look_of_not_ended h.ended, Watch.proceed, if_neg (ne_true_of_eq_false h.stopped), hhand]
  dsimp only
  rw [if_pos hroom]
  simp only [pending, hhand, Option.toList_some, Option.toList_none,
    List.length_cons, List.length_nil, List.length_append]
  omega

/-- Looking further takes the watch on, if there is anything to see. -/
theorem pending_look_of_none (h : f.Follows log scope start lost) (hhand : f.watch.inHand = none)
    (hlt : f.watch.next < log.length) : (f.look log).pending log < f.pending log := by
  rw [look_of_none h.ended h.stopped hhand, Watch.look]
  split
  · -- it may jump, but not past the end of the log
    rename_i hkept
    have hle : Watch.oldestKept log ≤ log.length := Nat.sub_le _ _
    simp only [pending]
    omega
  · rw [List.getElem?_eq_getElem hlt]
    dsimp only
    split
    · simp only [pending, hhand, Option.toList_some, Option.toList_none,
        List.length_cons, List.length_nil]
      omega
    · simp only [pending, hhand, Option.toList_none, List.length_nil]
      omega

/-- What can be done brings the subscription closer to where nothing is left to do. -/
theorem pending_advance (ho : f.IsOpen) (h : f.Follows log scope start lost)
    (hp : ¬ f.Settled log) : (f.advance log).pending log < f.pending log := by
  have hroom {l : List Notice} (hl : l = []) : l.length < Store.queueCapacity := by
    rw [hl]
    decide
  -- from the receiver back to the log: who comes first among those that have something to do
  cases hqueue : f.queue with
  | cons n rest =>
    have hact : f.advance log = f.receive := by simp [advance, hqueue]
    rw [hact]
    exact pending_receive hqueue
  | nil =>
    cases hhand : f.inHand with
    | some n =>
      have hact : f.advance log = f.forward := by simp [advance, hqueue, hhand]
      rw [hact]
      exact pending_forward_of_some ho h hhand (hroom hqueue)
    | none =>
      cases hwaiting : f.watch.queue with
      | cons n rest =>
        have hact : f.advance log = f.forward := by simp [advance, hqueue, hhand, hwaiting]
        rw [hact]
        exact pending_forward_of_none h hhand hwaiting
      | nil =>
        have hact : f.advance log = f.look log := by simp [advance, hqueue, hhand, hwaiting]
        rw [hact]
        cases hfound : f.watch.inHand with
        | some n => exact pending_look_of_some h hfound (hroom hwaiting)
        | none =>
          -- with nothing on its way, there must be something in the log that was not seen
          apply pending_look_of_none h hfound
          apply Nat.lt_of_le_of_ne h.next_le
          intro hnext
          exact hp ⟨hnext, hfound, hwaiting, hhand, hqueue⟩

theorem isOpen_advance (ho : f.IsOpen) (h : f.Follows log scope start lost) :
    (f.advance log).IsOpen := by
  rcases advance_eq f log with he | he | he
  · exact he ▸ isOpen_receive ho
  · exact he ▸ isOpen_forward ho h
  · exact he ▸ isOpen_look.mpr ho

/-- To advance keeps what is open on the track of the log. -/
theorem tracks_advance (h : f.Tracks log scope start lost) :
    ∃ lost', (f.advance log).Tracks log scope start lost' := by
  rcases advance_eq f log with he | he | he
  · exact ⟨lost, he ▸ tracks_receive h⟩
  · exact ⟨lost, he ▸ tracks_forward h⟩
  · exact ⟨_, he ▸ tracks_look h⟩

theorem Settled.pending_eq (h : f.Settled log) : f.pending log = 0 := by
  rw [pending, h.next, h.watchInHand, h.watchQueue, h.inHand, h.queue, Nat.sub_self]
  rfl

theorem Settled.advance_eq (h : f.Settled log) (hended : f.ended = false)
    (hstopped : f.watch.stopped = false) : f.advance log = f := by
  have hkept : ¬ f.watch.next < Watch.oldestKept log := by
    rw [h.next]
    exact Nat.not_lt_of_le (Nat.sub_le _ _)
  have hlook : f.advance log = f.look log := by simp [advance, h.queue, h.inHand, h.watchQueue]
  rw [hlook, look_of_none hended hstopped h.watchInHand, Watch.look, if_neg hkept, h.next,
    List.getElem?_eq_none (Nat.le_refl _)]

/-- To advance often enough brings everything that there is to the receiver. -/
theorem settled_advanceBy {m : Nat} (ho : f.IsOpen) (h : f.Tracks log scope start lost)
    (hm : f.pending log ≤ m) : (f.advanceBy log m).Settled log := by
  -- on the actions that may be taken; those that are left over change nothing
  induction m generalizing f lost with
  | zero =>
    apply Classical.byContradiction
    intro hp
    have hlt := pending_advance ho (h ho) hp
    omega
  | succ m ih =>
    rw [advanceBy]
    by_cases hp : f.Settled log
    · rw [hp.advance_eq (h ho).ended (h ho).stopped]
      apply ih ho h
      rw [hp.pending_eq]
      exact Nat.zero_le m
    · obtain ⟨lost', hnext⟩ := tracks_advance h
      have hlt := pending_advance ho (h ho) hp
      apply ih (isOpen_advance ho (h ho)) hnext
      omega

/-- An open subscription is drained to the end. -/
theorem settled_drain (ho : f.IsOpen) (h : f.Tracks log scope start lost) :
    (f.drain log).Settled log := by
  rw [drain, if_neg (ne_true_of_eq_false ho.cancelled)]
  exact settled_advanceBy ho h (Nat.le_refl _)

end RemoteCall.Feed
