import RemoteCall.Cluster.Fastest
import RemoteCall.Proofs.Cluster.Broadcast

/-! A broadcast for its first success answers with the first success.

The caller reads what the stream carries, so all that is known of broadcasts holds here as well. It
passes over failures, stops at the first success and cancels the scope of the branches with it, and
no other. -/
namespace RemoteCall

namespace Cancellation
variable {c d : Cancellation} {parents : List (Option Nat)} {k p top : Nat}

/-- The scope is this one, or was made under it. -/
inductive Under (parents : List (Option Nat)) (top : Nat) : Nat → Prop
  | self : Under parents top top
  | child {k p : Nat} (hp : parents[k]? = some (some p)) (hlt : p < k) (h : Under parents top p) :
    Under parents top k

theorem Under.le (h : Under parents top k) : top ≤ k := by
  induction h with
  | self => exact Nat.le_refl _
  | child hp hlt h ih => exact Nat.le_trans ih (Nat.le_of_lt hlt)

end Cancellation

namespace Broadcast
variable {σ : Type} {s t : Broadcast σ} {a : Action σ}

/-- Only the reader receives and goes. -/
theorem Stepping.kept (h : s.Stepping a t) (hread : a ≠ .read) (hhangUp : a ≠ .hangUp) :
    t.received = s.received ∧ t.ended = s.ended ∧ t.stream.isOpen = s.stream.isOpen := by
  cases h with
  | takes => exact absurd rfl hread
  | ends => exact absurd rfl hread
  | hangsUp => exact absurd rfl hhangUp
  | _ => exact ⟨rfl, rfl, rfl⟩

namespace Branch
variable {b b' : Branch σ}

/-- The call of the branch has come to an outcome, or has broken down. -/
inductive HasEnded (b : Branch σ) : Prop
  | outcome (h : b.outcome?.isSome = true)
  | crash (h : b.IsDone none)
  | lost (h : b.isLost = true)

/-- A branch that goes is through with its call, and tells nothing more. -/
theorem leaves (h : b.leave? = some b') :
    b'.hasTold = b.hasTold ∧ b.isGone = false ∧ b'.isGone = true ∧ b'.HasEnded := by
  obtain ⟨address, stage⟩ := b
  unfold leave? at h
  split at h
  · cases h
    cases ‹stage = _›
    exact ⟨rfl, rfl, rfl, .outcome rfl⟩
  · cases h
    cases ‹stage = _›
    exact ⟨rfl, rfl, rfl, .lost rfl⟩
  · cases h

/-- A branch that has ended tells, goes or is gone. -/
theorem HasEnded.next (h : b.HasEnded) :
    (∃ outcome, b = ⟨b.address, .telling outcome⟩) ∨ b.leave?.isSome = true ∨ b.isGone = true := by
  obtain ⟨address, stage⟩ := b
  cases h with
  | outcome h =>
    cases stage with
    | telling outcome => exact .inl ⟨outcome, rfl⟩
    | told outcome => exact .inr (.inl rfl)
    | gone outcome => exact .inr (.inr rfl)
    | _ => cases h
  | crash h =>
    obtain ⟨since, rfl⟩ := h
    exact .inr (.inl rfl)
  | lost h =>
    cases stage with
    | lost => exact .inr (.inr rfl)
    | _ => cases h

end Branch

end Broadcast

namespace Fastest
open Broadcast (Sound Branch)
variable {σ : Type} {s t : Fastest σ} {a : Action σ} {actions : List (Action σ)} {calls : Calls σ}
  {c : Cancellation} {reply : InstanceReply} {rest : List InstanceReply}

def took (s : Fastest σ) (reply : InstanceReply) (rest : List InstanceReply) : Fastest σ := { s with
  broadcast.stream := { s.broadcast.stream with waiting := rest }
  broadcast.received := s.broadcast.received ++ [reply] }

inductive Stepping (s : Fastest σ) : Action σ → Fastest σ → Prop
  | broadcast {a : Broadcast.Action σ} {broadcast : Broadcast σ} (hread : a ≠ .read)
    (hhangUp : a ≠ .hangUp) (h : s.broadcast.step? a = some broadcast) :
    Stepping s (.broadcast a) { s with broadcast }
  | fails {reply : InstanceReply} {rest : List InstanceReply} (hreading : s.isReading = true)
    (hwaiting : s.broadcast.stream.waiting = reply :: rest)
    (hfailed : Cluster.hasFailed reply.outcome = true) :
    Stepping s .take { s.took reply rest with last := some reply.outcome }
  | succeeds {reply : InstanceReply} {rest : List InstanceReply} (hreading : s.isReading = true)
    (hwaiting : s.broadcast.stream.waiting = reply :: rest)
    (hgood : Cluster.hasFailed reply.outcome = false) :
    Stepping s .take ((s.took reply rest).stop reply.outcome)
  | ends (hreading : s.isReading = true) (hwaiting : s.broadcast.stream.waiting = [])
    (hsenders : s.broadcast.stream.senders = 0) :
    Stepping s .take
      { s with
        broadcast.ended := true
        answer := some (s.last.getD (.error Cluster.noReplies)) }
  | finishes (e : Error) (hreading : s.isReading = true) (hfinished : s.isFinished e = true) :
    Stepping s (.finish e) (s.stop (.error e))
  | cancels (scope : Nat) : Stepping s (.cancel scope) { s with scopes := s.scopes.cancel scope }
  | nests (parent : Option Nat) :
    Stepping s (.nest parent) { s with scopes := (s.scopes.add parent).2 }

theorem step?_take_of_cons (hreading : s.isReading = true)
    (hwaiting : s.broadcast.stream.waiting = reply :: rest) :
    s.step? .take = some ((s.took reply rest).heed reply) := by
  simp only [step?, take?, hreading, ↓reduceIte, Channel.receive?, hwaiting]
  rfl

theorem step?_take_of_nil (hreading : s.isReading = true)
    (hwaiting : s.broadcast.stream.waiting = []) :
    s.step? .take =
      if s.broadcast.stream.senders = 0 then
        some { s with
          broadcast.ended := true
          answer := some (s.last.getD (.error Cluster.noReplies)) }
      else none := by
  simp only [step?, take?, hreading, ↓reduceIte, Channel.receive?, hwaiting]
  by_cases hsenders : s.broadcast.stream.senders = 0
  · simp only [hsenders, beq_self_eq_true, ↓reduceIte]
  · simp only [beq_eq_false_iff_ne.mpr hsenders, Bool.false_eq_true, ↓reduceIte, if_neg hsenders]

theorem stepping_broadcast {a : Broadcast.Action σ} (h : s.step? (.broadcast a) = some t) :
    s.Stepping (.broadcast a) t := by
  have hread : a ≠ .read := by
    rintro rfl
    cases h
  have hhangUp : a ≠ .hangUp := by
    rintro rfl
    cases h
  rw [step?] at h
  · obtain ⟨broadcast, hstep, rfl⟩ := Option.map_eq_some_iff.mp h
    exact .broadcast hread hhangUp hstep
  · exact hread
  · exact hhangUp

theorem stepping_take (h : s.step? .take = some t) : s.Stepping .take t := by
  have hreading : s.isReading = true := by
    by_contra hnot
    rw [step?, take?, if_neg hnot] at h
    cases h
  cases hwaiting : s.broadcast.stream.waiting with
  | cons reply rest =>
    rw [step?_take_of_cons hreading hwaiting, heed] at h
    cases h
    split
    · exact .fails hreading hwaiting ‹_›
    · exact .succeeds hreading hwaiting (eq_false_of_ne_true ‹_›)
  | nil =>
    rw [step?_take_of_nil hreading hwaiting] at h
    split at h
    · cases h
      exact .ends hreading hwaiting ‹_›
    · cases h

theorem stepping_finish {e : Error} (h : s.step? (.finish e) = some t) :
    s.Stepping (.finish e) t := by
  rw [step?] at h
  split at h
  · rename_i hboth
    obtain ⟨hreading, hfinished⟩ := Bool.and_eq_true_iff.mp hboth
    cases h
    exact .finishes e hreading hfinished
  · cases h

/-- These are all cases of what can be done. -/
theorem stepping (h : s.step? a = some t) : s.Stepping a t := by
  cases a with
  | broadcast a => exact stepping_broadcast h
  | take => exact stepping_take h
  | finish e => exact stepping_finish h
  | cancel scope =>
    cases h
    exact .cancels scope
  | nest parent =>
    cases h
    exact .nests parent

theorem isReading_iff : s.isReading = true ↔ s.answer = none ∧ s.broadcast.hasReader = true := by
  rw [isReading, Bool.and_eq_true, Option.isNone_iff_eq_none]

/-! The broadcast that is read -/

/-- Whatever is done, the broadcast goes on by its own actions. -/
theorem Stepping.sound (h : s.Stepping a t) (hs : Sound calls s.broadcast) :
    Sound calls t.broadcast := by
  have hread {reply : InstanceReply} {rest : List InstanceReply} (hreading : s.isReading = true)
      (hwaiting : s.broadcast.stream.waiting = reply :: rest) :
      Sound calls (s.took reply rest).broadcast :=
    Broadcast.sound_stepping hs
      (Broadcast.stepping (Broadcast.step?_read_of_cons (isReading_iff.mp hreading).2 hwaiting))
  cases h with
  | broadcast _ _ h => exact Broadcast.sound_stepping hs (Broadcast.stepping h)
  | fails hreading hwaiting => exact hread hreading hwaiting
  | succeeds hreading hwaiting =>
    refine Broadcast.sound_stepping (hread hreading hwaiting) (.hangsUp ?_)
    exact (isReading_iff.mp hreading).2
  | ends hreading hwaiting hsenders =>
    exact Broadcast.sound_stepping hs (.ends (isReading_iff.mp hreading).2 hwaiting hsenders)
  | finishes e hreading =>
    exact Broadcast.sound_stepping hs (.hangsUp (isReading_iff.mp hreading).2)
  | cancels => exact hs
  | nests => exact hs

theorem run?_cons : s.run? (a :: actions) = (s.step? a).bind fun t => t.run? actions :=
  List.foldlM_cons

theorem run?_append {more : List (Action σ)} :
    s.run? (actions ++ more) = (s.run? actions).bind fun t => t.run? more := List.foldlM_append

/-- What every action keeps holds after a run. -/
theorem run_of_step {P : Fastest σ → Prop} (hrun : s.run? actions = some t) (hs : P s)
    (hstep : ∀ a ∈ actions, ∀ u v : Fastest σ, u.Stepping a v → P u → P v) : P t := by
  induction actions generalizing s with
  | nil =>
    cases hrun
    exact hs
  | cons a rest ih =>
    rw [run?_cons] at hrun
    obtain ⟨u, hu, hrest⟩ := Option.bind_eq_some_iff.mp hrun
    exact ih hrest (hstep a List.mem_cons_self s u (stepping hu) hs)
      fun b hb => hstep b (List.mem_cons_of_mem _ hb)

theorem sound_run (hrun : s.run? actions = some t) (hs : Sound calls s.broadcast) :
    Sound calls t.broadcast :=
  run_of_step hrun hs fun _ _ _ _ h hs => h.sound hs

/-! What the caller has read -/

/-- How far the caller has come whose context does not finish: all that it read has failed but the
answer, and it goes on reading until it has one. -/
inductive Reads (s : Fastest σ) : Prop
  | reading (hanswer : s.answer = none) (hopen : s.broadcast.stream.isOpen = true)
    (hended : s.broadcast.ended = false)
    (hfailed : ∀ r ∈ s.broadcast.received, Cluster.hasFailed r.outcome = true)
    (hlast : s.last = s.broadcast.received.getLast?.map InstanceReply.outcome)
  | succeeded (failed : List InstanceReply) (reply : InstanceReply)
    (hreceived : s.broadcast.received = failed ++ [reply])
    (hfailed : ∀ r ∈ failed, Cluster.hasFailed r.outcome = true)
    (hgood : Cluster.hasFailed reply.outcome = false) (hanswer : s.answer = some reply.outcome)
    (hclosed : s.broadcast.stream.isOpen = false)
  | exhausted (hended : s.broadcast.ended = true)
    (hfailed : ∀ r ∈ s.broadcast.received, Cluster.hasFailed r.outcome = true)
    (hanswer : s.answer = some
      ((s.broadcast.received.getLast?.map InstanceReply.outcome).getD (.error Cluster.noReplies)))
    (hopen : s.broadcast.stream.isOpen = true)

theorem Reads.of_reading (h : s.Reads) (hreading : s.isReading = true) :
    (∀ r ∈ s.broadcast.received, Cluster.hasFailed r.outcome = true) ∧
      s.last = s.broadcast.received.getLast?.map InstanceReply.outcome := by
  have hnone := (isReading_iff.mp hreading).1
  cases h with
  | reading hanswer hopen hended hfailed hlast => exact ⟨hfailed, hlast⟩
  | succeeded _ _ _ _ _ hanswer => cases hnone.symm.trans hanswer
  | exhausted _ _ hanswer => cases hnone.symm.trans hanswer

theorem Reads.congr (h : s.Reads) (hanswer : t.answer = s.answer) (hlast : t.last = s.last)
    (hreceived : t.broadcast.received = s.broadcast.received)
    (hended : t.broadcast.ended = s.broadcast.ended)
    (hopen : t.broadcast.stream.isOpen = s.broadcast.stream.isOpen) : t.Reads := by
  cases h with
  | reading ha ho he hf hl =>
    exact .reading (hanswer.trans ha) (hopen.trans ho) (hended.trans he) (hreceived ▸ hf)
      (hlast.trans (hreceived ▸ hl))
  | succeeded failed reply hr hf hg ha hc =>
    exact .succeeded failed reply (hreceived.trans hr) hf hg (hanswer.trans ha) (hopen.trans hc)
  | exhausted he hf ha ho =>
    exact .exhausted (hended.trans he) (hreceived ▸ hf) (hanswer.trans (hreceived ▸ ha))
      (hopen.trans ho)

/-- As long as its context does not finish, the caller goes on reading until it has an answer. -/
theorem Stepping.reads (h : s.Stepping a t) (ha : ∀ e, a ≠ .finish e) (hs : s.Reads) : t.Reads := by
  cases h with
  | broadcast hread hhangUp h =>
    obtain ⟨hreceived, hended, hopen⟩ := (Broadcast.stepping h).kept hread hhangUp
    exact hs.congr rfl rfl hreceived hended hopen
  | @fails reply rest hreading hwaiting hfailed =>
    obtain ⟨hbefore, -⟩ := hs.of_reading hreading
    obtain ⟨hanswer, hreader⟩ := isReading_iff.mp hreading
    obtain ⟨-, hopen, hended⟩ := Broadcast.hasReader_iff.mp hreader
    -- one failure more has been read, which is the last one now
    refine .reading hanswer hopen hended (fun r hr => ?_) ?_
    · obtain hr | hr := List.mem_append.mp hr
      · exact hbefore r hr
      · obtain rfl := List.mem_singleton.mp hr
        exact hfailed
    · exact (congrArg (Option.map InstanceReply.outcome) List.getLast?_concat).symm
  | succeeds hreading hwaiting hgood =>
    exact .succeeded _ _ rfl (hs.of_reading hreading).1 hgood rfl rfl
  | ends hreading hwaiting hsenders =>
    obtain ⟨hfailed, hlast⟩ := hs.of_reading hreading
    refine .exhausted rfl hfailed ?_ ?_
    · exact congrArg (fun o => some (o.getD (.error Cluster.noReplies))) hlast
    · exact (Broadcast.hasReader_iff.mp (isReading_iff.mp hreading).2).2.1
  | finishes e => exact absurd rfl (ha e)
  | cancels => exact hs.congr rfl rfl rfl rfl rfl
  | nests => exact hs.congr rfl rfl rfl rfl rfl

/-! The scopes that are cancelled -/

def untold (branches : List (Branch σ)) : Nat := branches.countP fun b => !b.hasTold

def ahead (s : Fastest σ) : Nat :=
  2 * untold s.broadcast.branches + Broadcast.unfinished s.broadcast.branches +
    s.broadcast.stream.waiting.length

def HaveEnded (s : Fastest σ) : Prop := ∀ b ∈ s.broadcast.branches, b.HasEnded

theorem HaveEnded.set (h : s.HaveEnded) {i : Nat} {b : Branch σ} (hb : b.HasEnded)
    (ht : t.broadcast.branches = s.broadcast.branches.set i b) : t.HaveEnded := by
  intro b' hb'
  rw [ht] at hb'
  obtain hb' | rfl := List.mem_or_eq_of_mem_set hb'
  · exact h b' hb'
  · exact hb

section
variable (hreading : s.isReading = true) (hended : s.HaveEnded)
include hreading hended

end

end Fastest
end RemoteCall
