import RemoteCall.Registry.Feed

/-! What becomes of the changes of a service on their way to the receiver.

The watch takes them from the log, in order. From there on nothing is lost as long as the
subscription is open, so that what was received and what is still on its way are the changes up to
where the watch has come, less those that it found no longer kept. -/
namespace RemoteCall.Feed
open Store (Change Notice Watch)
variable {f g : Feed} {log more : List Change} {scope : String} {start : Nat} {lost : Nat → Prop}
  {n : Notice}

/-- Neither the registry nor the receiver has ended the subscription. -/
structure IsOpen (f : Feed) : Prop where
  cancelled : f.watch.cancelled = false
  left : f.left = false

/-- All that there is to do was done: the watch has seen the whole log, and nothing is on its way.
-/
structure Settled (log : List Change) (f : Feed) : Prop where
  next : f.watch.next = log.length
  watchInHand : f.watch.inHand = none
  watchQueue : f.watch.queue = []
  inHand : f.inHand = none
  queue : f.queue = []

/-- What was received and what is on its way, the oldest first. -/
def notices (f : Feed) : List Notice :=
  f.received ++ (f.queue ++ (f.inHand.toList ++ (f.watch.queue ++ f.watch.inHand.toList)))

theorem Settled.notices_eq (h : f.Settled log) : f.notices = f.received := by
  rw [notices, h.queue, h.inHand, h.watchQueue, h.watchInHand]
  exact List.append_nil _

/-- If the watch goes on now, it finds that this change is no longer kept. -/
structure Misses (log : List Change) (f : Feed) (j : Nat) : Prop where
  stopped : f.watch.stopped = false
  inHand : f.watch.inHand = none
  next_le : f.watch.next ≤ j
  lt_oldest : j < Watch.oldestKept log

/-- The subscription follows the log from `start` on, and lost the changes at some places. -/
structure Follows (f : Feed) (log : List Change) (scope : String) (start : Nat)
    (lost : Nat → Prop) : Prop where
  ended : f.ended = false
  stopped : f.watch.stopped = false
  scope_eq : f.watch.scope = scope
  start_le : start ≤ f.watch.next
  next_le : f.watch.next ≤ log.length
  lost_lt : ∀ j, lost j → j < f.watch.next
  mem_iff : ∀ n, n ∈ f.notices ↔ start ≤ n.place ∧ n.place < f.watch.next ∧ ¬ lost n.place ∧
    log[n.place]? = some n.change ∧ Store.startsWith n.change.key scope = true
  increasing : (f.notices.map Notice.place).Pairwise (· < ·)

/-- What is passed on is kept. -/
theorem Follows.congr (h : f.Follows log scope start lost) (hended : g.ended = false)
    (hstopped : g.watch.stopped = false) (hnext : g.watch.next = f.watch.next)
    (hscope : g.watch.scope = f.watch.scope) (hnotices : g.notices = f.notices) :
    g.Follows log scope start lost where
  ended := hended
  stopped := hstopped
  scope_eq := hscope.trans h.scope_eq
  start_le := hnext ▸ h.start_le
  next_le := hnext ▸ h.next_le
  lost_lt := hnext ▸ h.lost_lt
  mem_iff := by
    rw [hnext, hnotices]
    exact h.mem_iff
  increasing := hnotices ▸ h.increasing

/-- What the log gains does not change what was read of it. -/
theorem Follows.extend (h : f.Follows log scope start lost) (hlog : log <+: more) :
    f.Follows more scope start lost := by
  have hlen : log.length ≤ more.length := hlog.length_le
  have hnext := h.next_le
  refine ⟨h.ended, h.stopped, h.scope_eq, h.start_le, Nat.le_trans hnext hlen, h.lost_lt,
    fun n => ?_, h.increasing⟩
  rw [h.mem_iff n]
  apply and_congr_right
  intro _
  apply and_congr_right
  intro hlt
  -- the watch has not come to what is new
  have hget : more[n.place]? = log[n.place]? := by
    obtain ⟨rest, rfl⟩ := hlog
    exact List.getElem?_append_left (Nat.lt_of_lt_of_le hlt hnext)
  rw [hget]

/-! The watch -/

theorem look_of_not_ended (h : f.ended = false) :
    f.look log = { f with watch := f.watch.proceed log } := by
  rw [look, h, Bool.false_and]
  exact if_neg Bool.false_ne_true

/-- The watch passes on what it has in hand. -/
theorem follows_look_of_some (h : f.Follows log scope start lost)
    (hhand : f.watch.inHand = some n) : (f.look log).Follows log scope start lost := by
  rw [look_of_not_ended h.ended, Watch.proceed, if_neg (ne_true_of_eq_false h.stopped), hhand]
  dsimp only
  split
  · -- from the hand of the watch to the end of its queue
    apply h.congr
    · exact h.ended
    · exact h.stopped
    · rfl
    · rfl
    · simp only [notices, hhand, Option.toList_none, Option.toList_some, List.append_nil]
  · -- it waits for room
    exact h

theorem look_of_none (hended : f.ended = false) (hstopped : f.watch.stopped = false)
    (hhand : f.watch.inHand = none) : f.look log = { f with watch := f.watch.look log } := by
  rw [look_of_not_ended hended, Watch.proceed, if_neg (ne_true_of_eq_false hstopped), hhand]

/-- A change of another service is passed over. -/
theorem look_of_outside {c : Change} (hended : f.ended = false) (hstopped : f.watch.stopped = false)
    (hhand : f.watch.inHand = none) (hkept : Watch.oldestKept log ≤ f.watch.next)
    (hc : log[f.watch.next]? = some c) (hout : Store.startsWith c.key f.watch.scope = false) :
    f.look log = { f with watch := { f.watch with next := f.watch.next + 1 } } := by
  rw [look_of_none hended hstopped hhand, Watch.look, if_neg (Nat.not_lt_of_le hkept), hc]
  dsimp only
  rw [if_neg (ne_true_of_eq_false hout), ← hhand]

/-- The watch finds out what is kept; all that it had yet to see and is older is lost. -/
theorem follows_look_of_lt (h : f.Follows log scope start lost) (hhand : f.watch.inHand = none)
    (hlt : f.watch.next < Watch.oldestKept log) :
    (f.look log).Follows log scope start fun j => lost j ∨ f.Misses log j := by
  have hlook : f.watch.look log = { f.watch with next := Watch.oldestKept log } := if_pos hlt
  have hmisses (j : Nat) : f.Misses log j ↔ f.watch.next ≤ j ∧ j < Watch.oldestKept log :=
    ⟨fun hm => ⟨hm.next_le, hm.lt_oldest⟩, fun hj => ⟨h.stopped, hhand, hj.1, hj.2⟩⟩
  let g : Feed := { f with watch := { f.watch with next := Watch.oldestKept log } }
  have hnotices : g.notices = f.notices := by
    unfold notices
    rfl
  rw [look_of_none h.ended h.stopped hhand, hlook]
  change g.Follows log scope start fun j => lost j ∨ f.Misses log j
  refine ⟨h.ended, h.stopped, h.scope_eq, ?_, ?_, fun j hj => ?_, fun n => ?_, ?_⟩
  · exact Nat.le_trans h.start_le (Nat.le_of_lt hlt)
  · exact Nat.sub_le _ _
  · rcases hj with hj | hj
    · exact Nat.lt_trans (h.lost_lt j hj) hlt
    · exact hj.lt_oldest
  · -- a place before the oldest that is kept was seen before or is lost now
    rw [hnotices]
    refine (h.mem_iff n).trans ⟨fun ⟨hs, hn, hl, hc⟩ => ?_, fun ⟨hs, hn, hl, hc⟩ => ?_⟩
    · refine ⟨hs, Nat.lt_trans hn hlt, ?_, hc⟩
      rintro (hj | hj)
      · exact hl hj
      · exact absurd hj.next_le (Nat.not_le_of_lt hn)
    · rw [not_or, hmisses] at hl
      refine ⟨hs, ?_, hl.1, hc⟩
      apply Nat.lt_of_not_le
      intro hge
      exact hl.2 ⟨hge, hn⟩
  · rw [hnotices]
    exact h.increasing

theorem mem_taken {c : Change} {next : Nat} :
    n ∈ (if Store.startsWith c.key scope then some (Notice.mk next c) else none).toList ↔
      n.place = next ∧ n.change = c ∧ Store.startsWith c.key scope = true := by
  cases hs : Store.startsWith c.key scope with
  | true =>
    rw [if_pos rfl, Option.toList_some, List.mem_singleton]
    constructor
    · rintro rfl
      exact ⟨rfl, rfl, rfl⟩
    · rintro ⟨rfl, rfl, -⟩
      rfl
  | false =>
    rw [if_neg Bool.false_ne_true, Option.toList_none]
    constructor
    · intro hn
      exact absurd hn List.not_mem_nil
    · rintro ⟨-, -, hf⟩
      cases hf

/-- The next place of the log was looked at, and what stands there was taken if it is to be. -/
theorem Follows.take {taken : Option Notice} {c : Change} (h : f.Follows log scope start lost)
    (hc : log[f.watch.next]? = some c)
    (hmem : ∀ n, n ∈ taken.toList ↔
      n.place = f.watch.next ∧ n.change = c ∧ Store.startsWith c.key scope = true)
    (hended : g.ended = false) (hstopped : g.watch.stopped = false)
    (hscope : g.watch.scope = f.watch.scope) (hnext : g.watch.next = f.watch.next + 1)
    (hnotices : g.notices = f.notices ++ taken.toList) : g.Follows log scope start lost := by
  have hlt : f.watch.next < log.length := (List.getElem?_eq_some_iff.mp hc).1
  refine ⟨hended, hstopped, hscope.trans h.scope_eq, ?_, ?_, fun j hj => ?_, fun n => ?_, ?_⟩
  · rw [hnext]
    exact Nat.le_succ_of_le h.start_le
  · rw [hnext]
    exact hlt
  · rw [hnext]
    exact Nat.lt_succ_of_lt (h.lost_lt j hj)
  · -- a notice is of an earlier place, or of this one
    rw [hnext, hnotices, List.mem_append, h.mem_iff, hmem]
    constructor
    · rintro (⟨hs, hn, hl, hat⟩ | ⟨hplace, rfl, hservice⟩)
      · exact ⟨hs, Nat.lt_succ_of_lt hn, hl, hat⟩
      · rw [hplace]
        refine ⟨h.start_le, Nat.lt_succ_self _, fun hl => ?_, hc, hservice⟩
        exact Nat.lt_irrefl _ (h.lost_lt _ hl)
    · rintro ⟨hs, hn, hl, hat, hservice⟩
      rcases Nat.lt_succ_iff_lt_or_eq.mp hn with hn | hn
      · exact .inl ⟨hs, hn, hl, hat, hservice⟩
      · have hchange : n.change = c := by
          rw [hn, hc] at hat
          exact (Option.some.inj hat).symm
        exact .inr ⟨hn, hchange, hchange ▸ hservice⟩
  · rw [hnotices, List.map_append, List.pairwise_append]
    refine ⟨h.increasing, ?_, fun a ha b hb => ?_⟩
    · cases taken with
      | none => exact List.Pairwise.nil
      | some m => exact List.pairwise_singleton _ _
    · -- all notices before are of places that were looked at before
      obtain ⟨m, hm, rfl⟩ := List.mem_map.mp ha
      obtain ⟨n, hn, rfl⟩ := List.mem_map.mp hb
      rw [((hmem n).mp hn).1]
      exact ((h.mem_iff m).mp hm).2.1

/-- The watch takes the next change, if it is one of the service. -/
theorem follows_look_of_le (h : f.Follows log scope start lost) (hhand : f.watch.inHand = none)
    (hle : Watch.oldestKept log ≤ f.watch.next) : (f.look log).Follows log scope start lost := by
  rw [look_of_none h.ended h.stopped hhand, Watch.look, if_neg (Nat.not_lt_of_le hle)]
  cases hc : log[f.watch.next]? with
  | none => exact h
  | some c =>
    have hscope := h.scope_eq
    subst hscope
    refine h.take hc (fun n => mem_taken) h.ended h.stopped rfl rfl ?_
    simp only [notices, hhand, Option.toList_none, List.append_nil, List.append_assoc]

/-- A look takes in one change, or finds that some are lost. -/
theorem follows_look (h : f.Follows log scope start lost) :
    (f.look log).Follows log scope start fun j => lost j ∨ f.Misses log j := by
  have hkeep (hnone : ∀ j, ¬ f.Misses log j) : (fun j => lost j ∨ f.Misses log j) = lost := by
    funext j
    rw [eq_false (hnone j), or_false]
  -- only a watch that looks further can miss anything, and only if what it would see is gone
  cases hhand : f.watch.inHand with
  | some m =>
    rw [hkeep fun j hj => by simp [hj.inHand] at hhand]
    exact follows_look_of_some h hhand
  | none =>
    rcases Nat.lt_or_ge f.watch.next (Watch.oldestKept log) with hlt | hle
    · exact follows_look_of_lt h hhand hlt
    · rw [hkeep fun j hj => Nat.not_lt_of_le (Nat.le_trans hle hj.next_le) hj.lt_oldest]
      exact follows_look_of_le h hhand hle

/-! As long as it is open -/

def Tracks (f : Feed) (log : List Change) (scope : String) (start : Nat) (lost : Nat → Prop) :
    Prop :=
  f.IsOpen → f.Follows log scope start lost

theorem Tracks.extend (h : f.Tracks log scope start lost) (hlog : log <+: more) :
    f.Tracks more scope start lost := fun ho => (h ho).extend hlog

theorem cancelled_proceed (w : Watch) : (w.proceed log).cancelled = w.cancelled := by
  unfold Watch.proceed Watch.look
  split
  · rfl
  split
  · split
    · rfl
    · rfl
  split
  · rfl
  split
  · rfl
  · rfl

theorem isOpen_look : (f.look log).IsOpen ↔ f.IsOpen := by
  have hcancelled : (f.look log).watch.cancelled = f.watch.cancelled := by
    unfold look
    split
    · rfl
    · exact cancelled_proceed f.watch
  have hleft : (f.look log).left = f.left := by
    unfold look
    split
    · rfl
    · rfl
  constructor
  · intro h
    exact ⟨hcancelled ▸ h.cancelled, hleft ▸ h.left⟩
  · intro h
    exact ⟨hcancelled.trans h.cancelled, hleft.trans h.left⟩

theorem tracks_look (h : f.Tracks log scope start lost) :
    (f.look log).Tracks log scope start fun j => lost j ∨ f.Misses log j :=
  fun ho => follows_look (h (isOpen_look.mp ho))

theorem tracks_heedWatch (h : f.Tracks log scope start lost) :
    f.heedWatch.Tracks log scope start lost := by
  intro ho
  -- a watch stops only if it was cancelled
  have heq : f.heedWatch = f := by
    have hcancelled := ho.cancelled
    unfold heedWatch Watch.heed at hcancelled ⊢
    split at hcancelled
    · rename_i hand
      rw [hcancelled, Bool.false_and] at hand
      cases hand
    · rename_i hand
      rw [if_neg hand]
  rw [heq] at ho ⊢
  exact h ho

theorem tracks_finish : f.finish.Tracks log scope start lost :=
  fun ho => absurd ho.cancelled (by simp [finish])

theorem tracks_heed (h : f.Tracks log scope start lost) : f.heed.Tracks log scope start lost := by
  unfold heed
  split
  · exact tracks_finish
  · exact h

/-- The forwarder keeps the order of what it passes on, and loses nothing of an open subscription.
-/
theorem tracks_forward (h : f.Tracks log scope start lost) :
    f.forward.Tracks log scope start lost := by
  unfold forward
  split
  · exact h
  split
  · rename_i n hhand
    split
    · exact tracks_finish
    split
    · -- from the hand of the forwarder to the end of the queue of the receiver
      intro ho
      have hf := h ⟨ho.cancelled, ho.left⟩
      refine hf.congr hf.ended hf.stopped rfl rfl ?_
      simp only [notices, hhand, Option.toList_none, Option.toList_some, List.nil_append,
        List.append_assoc]
    · exact h
  · rename_i hhand
    cases hqueue : f.watch.queue with
    | nil =>
      simp only [Watch.receive, hqueue, List.head?_nil]
      split
      · exact tracks_finish
      · exact h
    | cons n rest =>
      simp only [Watch.receive, hqueue, List.head?_cons, List.drop_succ_cons, List.drop_zero]
      -- from the queue of the watch to the hand of the forwarder
      intro ho
      have hf := h ⟨ho.cancelled, ho.left⟩
      refine hf.congr hf.ended hf.stopped rfl rfl ?_
      simp only [notices, hhand, hqueue, Option.toList_none, Option.toList_some, List.nil_append,
        List.cons_append]

theorem tracks_receive (h : f.Tracks log scope start lost) :
    f.receive.Tracks log scope start lost := by
  unfold receive
  split
  · exact h
  · rename_i n rest hqueue
    intro ho
    have hf := h ⟨ho.cancelled, ho.left⟩
    refine hf.congr hf.ended hf.stopped rfl rfl ?_
    simp only [notices, hqueue, List.append_assoc, List.cons_append, List.nil_append]

theorem tracks_leave : f.leave.Tracks log scope start lost :=
  fun ho => absurd ho.left (by simp [leave])

theorem tracks_cancel : f.cancel.Tracks log scope start lost :=
  fun ho => absurd ho.cancelled (by simp [cancel])

end RemoteCall.Feed
