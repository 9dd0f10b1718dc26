import RemoteCall.Store.Watched
import RemoteCall.Proofs.Store.Log
import RemoteCall.Proofs.Store.Replay
import Mathlib.Data.List.Basic

/-! What reaches the receiver of a watch.

A watch takes changes from the log in order and looks at none of them twice. It may skip some, and
some may never come to be received; but what is received is in the order of the log, each change
once. -/
namespace RemoteCall
open Store (Change Notice Watch)

/-- The changes from a place of the log on whose keys begin with a text. -/
def Store.published (log : List Change) (start : Nat) (scope : String) : List Notice :=
  log.zipIdx.filterMap fun (c, i) =>
    if start ≤ i ∧ Store.startsWith c.key scope = true then some ⟨i, c⟩ else none

namespace Watcher
variable {w v : Watcher} {log more : List Change} {scope : String} {start : Nat} {n : Notice}

theorem published_mono (start : Nat) (scope : String) (h : log <+: more) :
    Store.published log start scope <+: Store.published more start scope := by
  obtain ⟨rest, rfl⟩ := h
  rw [Store.published, Store.published, List.zipIdx_append, List.filterMap_append]
  exact List.prefix_append _ _

/-- One more change is published if its key begins with the text. -/
theorem published_concat {c : Change} (hs : start ≤ log.length) :
    Store.published (log ++ [c]) start scope = Store.published log start scope ++
      (if Store.startsWith c.key scope = true then some
        (Notice.mk log.length c) else none).toList := by
  rw [Store.published, Store.published, List.zipIdx_append, List.filterMap_append]
  congr 1
  simp only [List.zipIdx_cons, List.zipIdx_nil, List.filterMap_cons,
    List.filterMap_nil, Nat.zero_add, hs, true_and]
  split
  · rename_i h
    split at h
    · cases h
    · rename_i hc
      rw [if_neg hc]
      rfl
  · rename_i m h
    split at h
    · rename_i hc
      cases h
      rw [if_pos hc]
      rfl
    · cases h

def notices (w : Watcher) : List Notice := w.received ++ (w.watch.queue ++ w.watch.inHand.toList)

/-- What was received and is on its way is some of what the watch has looked at. -/
structure Follows (w : Watcher) (log : List Change) (scope : String) (start : Nat) : Prop where
  scope_eq : w.watch.scope = scope
  start_le : start ≤ w.watch.next
  next_le : w.watch.next ≤ log.length
  sublist : w.notices.Sublist (Store.published (log.take w.watch.next) start scope)

theorem Follows.extend (h : w.Follows log scope start) (hlog : log <+: more) :
    w.Follows more scope start := by
  obtain ⟨rest, rfl⟩ := hlog
  refine ⟨h.scope_eq, h.start_le, ?_, ?_⟩
  · rw [List.length_append]
    exact Nat.le_add_right_of_le h.next_le
  · rw [List.take_append_of_le_length h.next_le]
    exact h.sublist

/-- What goes no further in the log and adds nothing. -/
theorem Follows.shrink (h : w.Follows log scope start) (hscope : v.watch.scope = w.watch.scope)
    (hnext : v.watch.next = w.watch.next) (hnotices : v.notices.Sublist w.notices) :
    v.Follows log scope start where
  scope_eq := hscope.trans h.scope_eq
  start_le := hnext ▸ h.start_le
  next_le := hnext ▸ h.next_le
  sublist := hnext ▸ hnotices.trans h.sublist

/-- The watch finds that the oldest changes are gone, and with them what it had yet to see. -/
theorem follows_look_of_lt (h : w.Follows log scope start)
    (hlt : w.watch.next < Watch.oldestKept log) :
    Follows { w with watch := w.watch.look log } log scope start := by
  have hlook : w.watch.look log = { w.watch with next := Watch.oldestKept log } := if_pos hlt
  have hle : Watch.oldestKept log ≤ log.length := Nat.sub_le _ _
  have htake : Store.published (log.take w.watch.next) start scope <+:
      Store.published (log.take (Watch.oldestKept log)) start scope :=
    published_mono start scope (List.take_prefix_take_left (Nat.le_of_lt hlt))
  let v : Watcher := { w with watch := { w.watch with next := Watch.oldestKept log } }
  have hnotices : v.notices = w.notices := by
    unfold notices
    rfl
  rw [hlook]
  change v.Follows log scope start
  refine ⟨h.scope_eq, Nat.le_trans h.start_le (Nat.le_of_lt hlt), hle, ?_⟩
  rw [hnotices]
  exact h.sublist.trans htake.sublist

theorem follows_look_of_le (h : w.Follows log scope start) (hhand : w.watch.inHand = none)
    (hle : Watch.oldestKept log ≤ w.watch.next) :
    Follows { w with watch := w.watch.look log } log scope start := by
  rw [Watch.look, if_neg (Nat.not_lt_of_le hle)]
  cases hc : log[w.watch.next]? with
  | none => exact h
  | some c =>
    obtain ⟨hlt, hget⟩ := List.getElem?_eq_some_iff.mp hc
    refine ⟨h.scope_eq, Nat.le_succ_of_le h.start_le, hlt, ?_⟩
    have hlen : (log.take w.watch.next).length = w.watch.next :=
      List.length_take_of_le (Nat.le_of_lt hlt)
    have hnotices : w.notices = w.received ++ w.watch.queue := by
      rw [notices, hhand, Option.toList_none, List.append_nil]
    have hsub := h.sublist
    rw [hnotices] at hsub
    -- the next change is taken or left, and stands behind all that were looked at
    rw [List.take_succ_eq_append_getElem hlt, hget, published_concat (hlen.symm ▸ h.start_le),
      hlen, notices, h.scope_eq, ← List.append_assoc]
    exact hsub.append (List.Sublist.refl _)

/-- A look passes on the next change, or finds that some are lost. -/
theorem follows_look (h : w.Follows log scope start) : (w.look log).Follows log scope start := by
  unfold look
  split
  · refine h.shrink rfl rfl ?_
    rw [notices, notices, Option.toList_none]
    exact ((List.Sublist.refl _).append (List.nil_sublist _)).append_left _
  · unfold Watch.proceed
    split
    · exact h
    split
    · rename_i n hhand
      split
      · -- from the hand of the watch to the end of its queue
        refine h.shrink rfl rfl ?_
        simp only [notices, hhand, Option.toList_none, Option.toList_some, List.append_nil]
        exact List.Sublist.refl _
      · exact h
    · rename_i hhand
      rcases Nat.lt_or_ge w.watch.next (Watch.oldestKept log) with hlt | hle
      · exact follows_look_of_lt h hlt
      · exact follows_look_of_le h hhand hle

theorem follows_heed (h : w.Follows log scope start) : w.heed.Follows log scope start := by
  unfold heed Watch.heed
  split
  · exact h.shrink rfl rfl (List.Sublist.refl _)
  · exact h

theorem follows_receive (h : w.Follows log scope start) : w.receive.Follows log scope start := by
  unfold receive
  cases hqueue : w.watch.queue with
  | nil =>
    simp only [Watch.receive, hqueue, List.head?_nil]
    exact h
  | cons n rest =>
    simp only [Watch.receive, hqueue, List.head?_cons, List.drop_succ_cons, List.drop_zero]
    refine h.shrink rfl rfl ?_
    simp only [notices, hqueue, List.append_assoc, List.cons_append]
    exact List.Sublist.refl _

theorem follows_leave (h : w.Follows log scope start) : w.leave.Follows log scope start := by
  refine h.shrink rfl rfl ?_
  rw [notices, notices]
  exact ((List.nil_sublist _).append (List.Sublist.refl _)).append_left _

end Watcher

namespace WatchedStore
variable {s : WatchedStore} {a : Action} {actions before after : List Action}
  {k : Nat} {w : Watcher}
  {scope : String} {start : Nat}

theorem run_append : s.run (before ++ after) = (s.run before).run after := List.foldl_append

def storeActions (actions : List Action) : List Store.Action :=
  actions.filterMap fun
    | .store a => some a
    | _ => none

theorem store_run (actions : List Action) : (s.run actions).store = s.store.run
    (storeActions actions) := by
  induction actions generalizing s with
  | nil => rfl
  | cons a rest ih =>
    have hstep : (s.run (a :: rest)).store = ((s.step a).run rest).store := rfl
    rw [hstep, ih]
    cases a with
    | store a => rfl
    | _ => rfl

/-- What an action does to a watch keeps what is known of it. -/
theorem follows_step (hw : s.watchers[k]? = some w) (h : w.Follows s.store.log scope start) :
    ∃ v, (s.step a).watchers[k]? = some v ∧ v.Follows (s.step a).store.log scope start := by
  -- whether the action is about this watch or about another
  have hon {f : Watcher → Watcher} (m : Nat) (hf : (f w).Follows s.store.log scope start) :
      ∃ v, (s.onWatcher m f).watchers[k]? = some v ∧ v.Follows s.store.log scope start := by
    rw [onWatcher, List.getElem?_modify, hw]
    refine ⟨_, rfl, ?_⟩
    split
    · exact hf
    · exact h
  cases a with
  | store a =>
    obtain ⟨news, hlog, -⟩ := Store.recorded_step s.store a
    exact ⟨w, hw, h.extend ⟨news, hlog.symm⟩⟩
  | watch scope =>
    refine ⟨w, ?_, h⟩
    exact List.getElem?_append_left (List.getElem?_eq_some_iff.mp hw).1 ▸ hw
  | look m => exact hon m (Watcher.follows_look h)
  | heed m => exact hon m (Watcher.follows_heed h)
  | receive m => exact hon m (Watcher.follows_receive h)
  | cancel m => exact hon m (h.shrink rfl rfl (List.Sublist.refl _))
  | leave m => exact hon m (Watcher.follows_leave h)

theorem follows_run (actions : List Action) (hw : s.watchers[k]? = some w)
    (h : w.Follows s.store.log scope start) :
    ∃ v, (s.run actions).watchers[k]? = some v ∧
    v.Follows (s.run actions).store.log scope start := by
  induction actions generalizing s w with
  | nil => exact ⟨w, hw, h⟩
  | cons a rest ih =>
    obtain ⟨v, hv, hfollows⟩ := follows_step (a := a) hw h
    exact ih hv hfollows

/-- A watch that has just begun. -/
theorem follows_watch (s : WatchedStore) (scope : String) :
    ∃ w, (s.step (.watch scope)).watchers[s.watchers.length]? = some w ∧
      w.Follows s.store.log scope s.store.log.length := by
  refine ⟨_, List.getElem?_concat_length, rfl, Nat.le_refl _, Nat.le_refl _, List.nil_sublist _⟩

/-- Whoever knows the keys and values of a store at some time and reads its log from there on knows
them now. Each put that succeeds is written to the log once, and so is each key that goes; nothing
else is. Each watch hands over, in the order of the log and none twice, changes that were written
since it began and whose keys begin with its text, whatever it skips. -/
theorem log_agrees (start : Int) (before after : List Action) :
    (∃ news, ((new start).run (before ++ after)).store.log =
      ((new start).run before).store.log ++ news ∧
      Store.replay ((new start).run before).store.contents news =
        ((new start).run (before ++ after)).store.contents) ∧
    (∀ a, ∃ news, (((new start).run before).store.step a).log =
      ((new start).run before).store.log ++ news ∧
      Store.Recorded ((new start).run before).store
        (((new start).run before).store.step a) a news) ∧
    ∀ scope, ∃ w, ((new start).run (before ++ .watch scope :: after)).watchers[
        ((new start).run before).watchers.length]? = some w ∧
      w.received.Sublist (Store.published
        ((new start).run (before ++ .watch scope :: after)).store.log
        ((new start).run before).store.log.length scope) := by
  refine ⟨?_, fun a => ?_, fun scope => ?_⟩
  · rw [run_append, store_run after]
    exact Store.replay_run _ _
  · obtain ⟨news, hlog, hrecorded, -⟩ := Store.recorded_step ((new start).run before).store a
    exact ⟨news, hlog, hrecorded⟩
  · obtain ⟨w, hw, hfollows⟩ := follows_watch ((new start).run before) scope
    obtain ⟨v, hv, hlast⟩ := follows_run after hw hfollows
    have hrun : (new start).run (before ++ .watch scope :: after) =
        (((new start).run before).step (.watch scope)).run after := run_append
    rw [hrun]
    refine ⟨v, hv, ?_⟩
    have hall := hlast.sublist
    rw [Watcher.notices] at hall
    have htake := (Watcher.published_mono ((new start).run before).store.log.length scope
      (List.take_prefix v.watch.next
        ((((new start).run before).step (.watch scope)).run after).store.log)).sublist
    exact (List.sublist_append_left _ _).trans (hall.trans htake)

end WatchedStore
end RemoteCall
