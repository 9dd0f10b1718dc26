import RemoteCall.Cluster.Broadcast
import RemoteCall.Proofs.Work
import RemoteCall.Proofs.Work.Ends
import Mathlib.Data.List.Forall2
import Mathlib.Data.List.Nodup
import Mathlib.Data.List.Perm.Subperm

/-! What the stream of a broadcast carries, whatever its branches, its reader and all others do in
between.

The branches that have told stand in one order, and what was received and what waits are their
replies in that order. The stream has room for all branches, so one that is still to tell finds
room; and it has a sender for each branch that is not gone, so it ends with the last of them. A
branch whose call breaks down goes without telling. -/
namespace RemoteCall

namespace Broadcast
variable {σ : Type} {s t : Broadcast σ} {a : Action σ} {actions : List (Action σ)} {calls : Calls σ}

inductive Stepping (s : Broadcast σ) : Action σ → Broadcast σ → Prop
  | handsOut (hpending : s.pending = some []) :
    Stepping s .launch { s with pending := none, stream := s.stream.dropSender }
  | launches {address : String} {call : Work σ (Result Response)} {rest : Calls σ}
    (hpending : s.pending = some ((address, call) :: rest)) : Stepping s .launch { s with
      pending := some rest
      branches := s.branches ++ [⟨address, .calling s.clock.mono call⟩]
      stream := s.stream.addSender }
  | goes {i : Nat} {b b' : Branch σ} {state : σ} (hb : s.branches[i]? = some b)
    (hgo : b.go? s.clock s.state = some (b', state)) :
    Stepping s (.go i) { s with state, branches := s.branches.set i b' }
  | tells {i : Nat} {address : String} {outcome : Result Response}
    (hb : s.branches[i]? = some ⟨address, .telling outcome⟩) (hopen : s.stream.isOpen = true)
    (hroom : s.stream.waiting.length < s.stream.room) : Stepping s (.tell i) { s with
      stream := { s.stream with waiting := s.stream.waiting ++ [⟨address, outcome⟩] }
      branches := s.branches.set i ⟨address, .told outcome⟩ }
  | drops {i : Nat} {address : String} {outcome : Result Response}
    (hb : s.branches[i]? = some ⟨address, .telling outcome⟩) (hclosed : s.stream.isOpen = false) :
    Stepping s (.tell i) { s with branches := s.branches.set i ⟨address, .told outcome⟩ }
  | leaves {i : Nat} {address : String} {outcome : Result Response}
    (hb : s.branches[i]? = some ⟨address, .told outcome⟩) : Stepping s (.leave i) { s with
      stream := s.stream.dropSender
      branches := s.branches.set i ⟨address, .gone outcome⟩ }
  | breaks {i : Nat} {address : String} {since : Int}
    (hb : s.branches[i]? = some ⟨address, .calling since .crash⟩) : Stepping s (.leave i) { s with
      stream := s.stream.dropSender
      branches := s.branches.set i ⟨address, .lost⟩ }
  | takes {reply : InstanceReply} {rest : List InstanceReply} (hreader : s.hasReader = true)
    (hwaiting : s.stream.waiting = reply :: rest) : Stepping s .read { s with
      stream := { s.stream with waiting := rest }
      received := s.received ++ [reply] }
  | ends (hreader : s.hasReader = true) (hwaiting : s.stream.waiting = [])
    (hsenders : s.stream.senders = 0) :
    Stepping s .read { s with ended := true }
  | hangsUp (hreader : s.hasReader = true) : Stepping s .hangUp { s with stream := s.stream.close }
  | passes (span : Nat) : Stepping s (.pass span) { s with clock := s.clock.advance span }
  | others (f : σ → σ) : Stepping s (.others f) { s with state := f s.state }

theorem stepping_launch (h : s.step? .launch = some t) : s.Stepping .launch t := by
  simp only [step?, launch?] at h
  split at h
  · cases h
  · cases h
    exact .handsOut ‹_›
  · cases h
    exact .launches ‹_›

theorem stepping_go {i : Nat} (h : s.step? (.go i) = some t) : s.Stepping (.go i) t := by
  obtain ⟨b, hb, h⟩ := Option.bind_eq_some_iff.mp h
  obtain ⟨⟨b', state⟩, hgo, h⟩ := Option.bind_eq_some_iff.mp h
  cases h
  exact .goes hb hgo

/-- The branch is to tell; then it counts whether there is a receiver, and whether there is room. -/
theorem stepping_tell {i : Nat} (h : s.step? (.tell i) = some t) : s.Stepping (.tell i) t := by
  simp only [step?, tell?, Channel.send?] at h
  split at h
  · obtain ⟨stream, hsend, h⟩ := Option.bind_eq_some_iff.mp h
    cases h
    split at hsend
    · cases hsend
      exact .drops ‹_› (Bool.not_eq_true' _ ▸ ‹_›)
    · split at hsend
      · cases hsend
        exact .tells ‹_› (by simpa using ‹¬ (!s.stream.isOpen) = true›) ‹_›
      · cases hsend
  · cases h

/-- The branch has told, or its call has broken down. -/
theorem stepping_leave {i : Nat} (h : s.step? (.leave i) = some t) : s.Stepping (.leave i) t := by
  obtain ⟨b, hb, h⟩ := Option.bind_eq_some_iff.mp h
  obtain ⟨b', hleave, h⟩ := Option.bind_eq_some_iff.mp h
  cases h
  obtain ⟨address, stage⟩ := b
  unfold Branch.leave? at hleave
  split at hleave
  · cases hleave
    cases ‹stage = _›
    exact .leaves hb
  · cases hleave
    cases ‹stage = _›
    exact .breaks hb
  · cases hleave

theorem stepping_read (h : s.step? .read = some t) : s.Stepping .read t := by
  simp only [step?, read?, Channel.receive?] at h
  split at h
  · rename_i hreader
    cases hwaiting : s.stream.waiting with
    | cons reply rest =>
      simp only [hwaiting] at h
      cases h
      exact .takes hreader hwaiting
    | nil =>
      by_cases hsenders : s.stream.senders = 0
      · simp only [hwaiting, hsenders, beq_self_eq_true, ↓reduceIte] at h
        cases h
        exact .ends hreader hwaiting hsenders
      · simp only [hwaiting, beq_eq_false_iff_ne.mpr hsenders, Bool.false_eq_true, ↓reduceIte,
          reduceCtorEq] at h
  · cases h

/-- These are all cases of what can be done. -/
theorem stepping (h : s.step? a = some t) : s.Stepping a t := by
  cases a with
  | launch => exact stepping_launch h
  | go i => exact stepping_go h
  | tell i => exact stepping_tell h
  | leave i => exact stepping_leave h
  | read => exact stepping_read h
  | hangUp =>
    simp only [step?, hangUp?] at h
    split at h
    · cases h
      exact .hangsUp ‹_›
    · cases h
  | pass span =>
    cases h
    exact .passes span
  | others f =>
    cases h
    exact .others f

namespace Branch
variable {b b' b'' : Branch σ} {clock : Clock} {state state' : σ}

/-- What a branch has come to stays: only what is left of its call changes. -/
structure LeadsTo (b b' : Branch σ) : Prop where
  address_eq : b'.address = b.address
  outcome : ∀ o, b.outcome? = some o → b'.outcome? = some o
  told : b.hasTold = true → b'.hasTold = true
  lost : b.isLost = true → b'.isLost = true

theorem LeadsTo.refl (b : Branch σ) : b.LeadsTo b := ⟨rfl, fun _ ho => ho, fun h => h, fun h => h⟩

theorem LeadsTo.trans (h : b.LeadsTo b') (h' : b'.LeadsTo b'') : b.LeadsTo b'' where
  address_eq := h'.address_eq.trans h.address_eq
  outcome o ho := h'.outcome o (h.outcome o ho)
  told ht := h'.told (h.told ht)
  lost hl := h'.lost (h.lost hl)

/-- A branch that has its outcome keeps it when it tells, and when it is through. -/
theorem LeadsTo.of_told (haddress : b'.address = b.address) (houtcome : b'.outcome? = b.outcome?)
    (htold : b'.hasTold = true) (hlost : b.isLost = false) : b.LeadsTo b' where
  address_eq := haddress
  outcome _ ho := houtcome.trans ho
  told _ := htold
  lost hl := by cases hlost.symm.trans hl

/-- The branch makes a call: what is left of it can come to nothing else than the whole, and what
has come of it the call can come to. -/
structure Makes (b : Branch σ) (call : String × Work σ (Result Response)) : Prop where
  address_eq : b.address = call.1
  left : ∀ since left o, b.stage = .calling since left → left.Yields o → call.2.Yields o
  outcome : ∀ o, b.outcome? = some o → call.2.Yields (some o)
  lost : b.isLost = true → call.2.Yields none

/-- A branch that goes on has not told and does not tell yet. -/
theorem going (h : b.go? clock state = some (b', state')) :
    ∃ since left, b.stage = .calling since left ∧ b'.hasTold = false ∧ b'.isGone = false ∧
      b'.address = b.address ∧
      (∀ since' left' o, b'.stage = .calling since' left' → left'.Yields o → left.Yields o) ∧
      ∀ o, b'.outcome? = some o → left.Yields (some o) := by
  obtain ⟨address, stage⟩ := b
  cases stage with
  | telling o => cases h
  | told o => cases h
  | gone o => cases h
  | lost => cases h
  | calling since left =>
    -- by the next thing that the call does
    refine ⟨since, left, rfl, ?_⟩
    cases left with
    | done o =>
      cases h
      refine ⟨rfl, rfl, rfl, nofun, fun o' ho' => ?_⟩
      cases ho'
      exact .done o
    | act f next =>
      cases h
      refine ⟨rfl, rfl, rfl, fun since' left' o hleft ho => ?_, nofun⟩
      cases hleft
      exact .act state ho
    | clock next =>
      cases h
      refine ⟨rfl, rfl, rfl, fun since' left' o hleft ho => ?_, nofun⟩
      cases hleft
      exact .clock clock ho
    | wait span next =>
      simp only [go?] at h
      split at h
      · cases h
        refine ⟨rfl, rfl, rfl, fun since' left' o hleft ho => ?_, nofun⟩
        cases hleft
        exact .wait ho
      · cases h
    | never => cases h
    | crash => cases h

theorem isGone_of_isLost (h : b.isLost = true) : b.isGone = true := by
  obtain ⟨address, stage⟩ := b
  cases stage with
  | lost => rfl
  | _ => cases h

theorem leadsTo_go (h : b.go? clock state = some (b', state')) : b.LeadsTo b' := by
  obtain ⟨since, left, hstage, -, -, haddress, -, -⟩ := going h
  obtain ⟨address, stage⟩ := b
  cases hstage
  exact ⟨haddress, nofun, nofun, nofun⟩

/-- A branch that has its outcome makes its call also when it has told, and when it is through. -/
theorem Makes.of_told {call : String × Work σ (Result Response)} (hb : b.Makes call)
    (haddress : b'.address = b.address) (houtcome : b'.outcome? = b.outcome?)
    (htold : b'.hasTold = true) : b'.Makes call where
  address_eq := haddress.trans hb.address_eq
  left _ _ _ hstage := by
    rw [hasTold, hstage] at htold
    cases htold
  outcome o ho := hb.outcome o (houtcome.symm.trans ho)
  lost hlost := by
    rw [isLost] at hlost
    split at hlost
    · rename_i hstage
      rw [hasTold, hstage] at htold
      cases htold
    · cases hlost

/-- A branch whose call breaks down is lost over that. -/
theorem Makes.of_crash {call : String × Work σ (Result Response)} {since : Int} (hb : b.Makes call)
    (hstage : b.stage = .calling since .crash) : Makes ⟨b.address, .lost⟩ call where
  address_eq := hb.address_eq
  left := nofun
  outcome := nofun
  lost _ := hb.left since .crash none hstage .crash

/-- A branch that goes on still makes the call that it made. -/
theorem Makes.go {call : String × Work σ (Result Response)} (hb : b.Makes call)
    (h : b.go? clock state = some (b', state')) : b'.Makes call := by
  obtain ⟨since, left, hstage, -, hgone, haddress, hleft, houtcome⟩ := going h
  refine ⟨haddress.trans hb.address_eq, fun since' left' o hstage' ho => ?_,
    fun o ho => ?_, fun hlost => ?_⟩
  · exact hb.left since left o hstage (hleft since' left' o hstage' ho)
  · exact hb.left since left (some o) hstage (houtcome o ho)
  · cases hgone.symm.trans (isGone_of_isLost hlost)

end Branch

def HasTold (s : Broadcast σ) (i : Nat) : Prop := ∃ b, s.branches[i]? = some b ∧ b.hasTold = true

def IsReply (s : Broadcast σ) (i : Nat) (reply : InstanceReply) : Prop :=
  ∃ b, s.branches[i]? = some b ∧ b.address = reply.address ∧ b.outcome? = some reply.outcome

def LeadsTo (s t : Broadcast σ) : Prop :=
  ∀ (i : Nat) (b : Branch σ), s.branches[i]? = some b → ∃ b' : Branch σ,
    t.branches[i]? = some b' ∧ b.LeadsTo b'

theorem leadsTo_set {i : Nat} {b b' : Branch σ} (hb : s.branches[i]? = some b)
    (ht : t.branches = s.branches.set i b') (h : b.LeadsTo b') : s.LeadsTo t := by
  intro j c hc
  by_cases hij : i = j
  · subst hij
    obtain rfl : b = c := Option.some.inj (hb.symm.trans hc)
    refine ⟨b', ?_, h⟩
    rw [ht, List.getElem?_set_self (List.getElem?_eq_some_iff.mp hb).1]
  · refine ⟨c, ?_, .refl c⟩
    rw [ht, List.getElem?_set_ne hij, hc]

theorem leadsTo_of_eq (ht : t.branches = s.branches) : s.LeadsTo t :=
  fun i b hb => ⟨b, by rw [ht, hb], .refl b⟩

theorem LeadsTo.trans {u : Broadcast σ} (h : s.LeadsTo t) (h' : t.LeadsTo u) : s.LeadsTo u := by
  intro i b hb
  obtain ⟨b', hb', hlead⟩ := h i b hb
  obtain ⟨b'', hb'', hlead'⟩ := h' i b' hb'
  exact ⟨b'', hb'', hlead.trans hlead'⟩

/-- No action takes back what a branch has come to. -/
theorem Stepping.leadsTo (h : s.Stepping a t) : s.LeadsTo t := by
  cases h with
  | handsOut => exact leadsTo_of_eq rfl
  | launches hpending =>
    intro i b hb
    refine ⟨b, ?_, .refl b⟩
    exact (List.getElem?_append_left (List.getElem?_eq_some_iff.mp hb).1).trans hb
  | goes hb hgo => exact leadsTo_set hb rfl (Branch.leadsTo_go hgo)
  | tells hb hopen hroom => exact leadsTo_set hb rfl (.of_told rfl rfl rfl rfl)
  | drops hb hclosed => exact leadsTo_set hb rfl (.of_told rfl rfl rfl rfl)
  | leaves hb => exact leadsTo_set hb rfl (.of_told rfl rfl rfl rfl)
  | breaks hb => exact leadsTo_set hb rfl ⟨rfl, nofun, nofun, nofun⟩
  | takes => exact leadsTo_of_eq rfl
  | ends => exact leadsTo_of_eq rfl
  | hangsUp => exact leadsTo_of_eq rfl
  | passes => exact leadsTo_of_eq rfl
  | others => exact leadsTo_of_eq rfl

theorem IsReply.leadsTo {i : Nat} {reply : InstanceReply} (hr : s.IsReply i reply)
    (h : s.LeadsTo t) : t.IsReply i reply := by
  obtain ⟨b, hb, haddress, houtcome⟩ := hr
  obtain ⟨b', hb', hlead⟩ := h i b hb
  exact ⟨b', hb', hlead.address_eq.trans haddress, hlead.outcome _ houtcome⟩

theorem HasTold.leadsTo {i : Nat} (hi : s.HasTold i) (h : s.LeadsTo t) : t.HasTold i := by
  obtain ⟨b, hb, htold⟩ := hi
  obtain ⟨b', hb', hlead⟩ := h i b hb
  exact ⟨b', hb', hlead.told htold⟩

/-- The branches that have told, in the order in which they did. -/
structure Told (s : Broadcast σ) (order : List Nat) : Prop where
  nodup : order.Nodup
  told : ∀ i ∈ order, s.HasTold i
  replies : List.Forall₂ s.IsReply order (s.received ++ s.stream.waiting)
  all : s.stream.isOpen = true → ∀ i, s.HasTold i → i ∈ order

def isLost (s : Broadcast σ) (i : Nat) : Bool := s.branches[i]?.any Branch.isLost

def unfinished (branches : List (Branch σ)) : Nat := branches.countP fun b => !b.isGone

/-- What holds of a broadcast of these calls whatever was done. -/
structure Sound (calls : Calls σ) (s : Broadcast σ) : Prop where
  room_eq : s.stream.room = calls.length
  pending_eq : s.pending.getD [] = calls.drop s.branches.length
  makes : ∀ (i : Nat) (b : Branch σ), s.branches[i]? = some b →
    ∃ call, calls[i]? = some call ∧ b.Makes call
  senders_eq : s.stream.senders = s.pending.toList.length + unfinished s.branches
  order : ∃ order, s.Told order
  ended : s.ended = true → s.pending = none ∧ s.stream.isOpen = true ∧
    s.stream.waiting = [] ∧ s.stream.senders = 0

/-- In the beginning nothing was told and nobody has gone. -/
theorem sound_start (clock : Clock) (state : σ) (calls : Calls σ) :
    Sound calls (start clock state calls) where
  room_eq := rfl
  pending_eq := rfl
  makes := nofun
  senders_eq := rfl
  order := ⟨[], .nil, nofun, .nil, nofun⟩
  ended := nofun

/-! Every action keeps the numbers and the order of the replies. -/

theorem unfinished_append (branches : List (Branch σ)) (address : String) (since : Int)
    (call : Work σ (Result Response)) :
    unfinished (branches ++ [⟨address, .calling since call⟩]) = unfinished branches + 1 := by
  rw [unfinished, List.countP_append]
  rfl

theorem unfinished_pos {i : Nat} {b : Branch σ} (hb : s.branches[i]? = some b)
    (h : b.isGone = false) : 0 < unfinished s.branches :=
  List.countP_pos_iff.mpr ⟨b, List.mem_of_getElem? hb, by rw [h]; rfl⟩

/-- A branch that is not gone has another one in its place. -/
theorem unfinished_set {i : Nat} {b : Branch σ} (hb : s.branches[i]? = some b)
    (h : b.isGone = false) (b' : Branch σ) :
    unfinished (s.branches.set i b') + (if b'.isGone then 1 else 0) =
      unfinished s.branches := by
  have hpos := unfinished_pos hb h
  obtain ⟨hi, rfl⟩ := List.getElem?_eq_some_iff.mp hb
  rw [unfinished] at hpos
  rw [unfinished, unfinished, List.countP_set hi, h]
  cases b'.isGone with
  | true =>
    simp only [Bool.not_false, Bool.not_true, Bool.false_eq_true, ↓reduceIte]
    omega
  | false =>
    simp only [Bool.not_false, Bool.false_eq_true, ↓reduceIte]
    omega

/-- A branch that is not gone goes on, and nothing but the stream changes with it. -/
theorem Sound.set (h : Sound calls s) {i : Nat} {b b' : Branch σ} (hb : s.branches[i]? = some b)
    (hbranches : t.branches = s.branches.set i b') (hgone : b.isGone = false)
    (hmakes : ∀ call, b.Makes call → b'.Makes call) (hpending : t.pending = s.pending)
    (hroom : t.stream.room = s.stream.room)
    (hsenders : t.stream.senders + (if b'.isGone then 1 else 0) = s.stream.senders)
    (hended : t.ended = s.ended) (horder : ∃ order, t.Told order) : Sound calls t where
  room_eq := hroom.trans h.room_eq
  pending_eq := by
    rw [hpending, hbranches, List.length_set]
    exact h.pending_eq
  makes j c hc := by
    rw [hbranches] at hc
    by_cases hij : i = j
    · subst hij
      rw [List.getElem?_set_self (List.getElem?_eq_some_iff.mp hb).1] at hc
      cases hc
      obtain ⟨call, hcall, hb⟩ := h.makes i b hb
      exact ⟨call, hcall, hmakes call hb⟩
    · rw [List.getElem?_set_ne hij] at hc
      exact h.makes j c hc
  senders_eq := by
    have hset := unfinished_set hb hgone b'
    have hbefore := h.senders_eq
    rw [hpending, hbranches]
    omega
  order := horder
  ended hend := by
    -- a stream that has ended has no sender left, but this branch has one
    have hnone := (h.ended (hended.symm.trans hend)).2.2.2
    have hbefore := h.senders_eq
    have hpos := unfinished_pos hb hgone
    omega

/-- Nothing is sent and nobody has told anew. -/
theorem Told.keep {order : List Nat} (h : s.Told order) (hlead : s.LeadsTo t)
    (hsent : t.received ++ t.stream.waiting = s.received ++ s.stream.waiting)
    (hopen : t.stream.isOpen = true → s.stream.isOpen = true)
    (htold : ∀ i, t.HasTold i → s.HasTold i) : t.Told order where
  nodup := h.nodup
  told i hi := (h.told i hi).leadsTo hlead
  replies := by
    rw [hsent]
    exact h.replies.imp fun _ _ hr => hr.leadsTo hlead
  all hopen' i hi := h.all (hopen hopen') i (htold i hi)

theorem hasTold_set {i j : Nat} {b' : Branch σ} (ht : t.branches = s.branches.set i b')
    (h : t.HasTold j) : s.HasTold j ∨ j = i ∧ b'.hasTold = true := by
  obtain ⟨c, hc, htold⟩ := h
  rw [ht] at hc
  by_cases hij : i = j
  · subst hij
    rw [List.getElem?_set] at hc
    split at hc
    · split at hc
      · cases hc
        exact .inr ⟨rfl, htold⟩
      · cases hc
    · exact .inl ⟨c, hc, htold⟩
  · rw [List.getElem?_set_ne hij] at hc
    exact .inl ⟨c, hc, htold⟩

/-- A branch that has not told is none of those that have. -/
theorem Told.not_mem {order : List Nat} (h : s.Told order) {i : Nat} {b : Branch σ}
    (hb : s.branches[i]? = some b) (htold : b.hasTold = false) : i ∉ order := by
  intro hi
  obtain ⟨c, hc, htold'⟩ := h.told i hi
  cases hb.symm.trans hc
  cases htold.symm.trans htold'

/-- A branch that tells comes behind those that have told before. -/
theorem Told.concat {order : List Nat} (h : s.Told order) (hlead : s.LeadsTo t) {i : Nat}
    {b : Branch σ} {address : String} {outcome : Result Response} (hb : s.branches[i]? = some b)
    (htold : b.hasTold = false) (hopen : s.stream.isOpen = true)
    (hbranches : t.branches = s.branches.set i ⟨address, .told outcome⟩)
    (hsent : t.received ++ t.stream.waiting = s.received ++ s.stream.waiting ++
      [⟨address, outcome⟩]) :
    t.Told (order ++ [i]) := by
  have hi : t.branches[i]? = some ⟨address, .told outcome⟩ := by
    rw [hbranches]
    exact List.getElem?_set_self (List.getElem?_eq_some_iff.mp hb).1
  refine ⟨?_, ?_, ?_, fun _ j hj => ?_⟩
  · rw [← List.concat_eq_append]
    exact h.nodup.concat (h.not_mem hb htold)
  · intro j hj
    obtain hj | hj := List.mem_append.mp hj
    · exact (h.told j hj).leadsTo hlead
    · obtain rfl := List.mem_singleton.mp hj
      exact ⟨_, hi, rfl⟩
  · rw [hsent]
    apply List.rel_append (h.replies.imp fun _ _ hr => hr.leadsTo hlead)
    exact .cons ⟨_, hi, rfl, rfl⟩ .nil
  · obtain hj | ⟨rfl, -⟩ := hasTold_set hbranches hj
    · exact List.mem_append_left _ (h.all hopen j hj)
    · exact List.mem_append_right _ (List.mem_singleton_self j)

/-- Once the reader has hung up, only what it received counts. -/
theorem Told.take {order : List Nat} (h : s.Told order) (hlead : s.LeadsTo t)
    (hsent : t.received ++ t.stream.waiting = s.received) (hopen : t.stream.isOpen = false) :
    t.Told (order.take s.received.length) where
  nodup := h.nodup.sublist (List.take_sublist _ _)
  told i hi := (h.told i (List.mem_of_mem_take hi)).leadsTo hlead
  replies := by
    rw [hsent]
    exact (List.forall₂_take_append _ _ _ h.replies).imp fun _ _ hr => hr.leadsTo hlead
  all hopen' := by cases hopen.symm.trans hopen'

/-- A branch that has begun is the one that was there, or the new one. -/
theorem getElem?_concat {α : Type} {l : List α} {a b : α} {i : Nat} (h : (l ++ [a])[i]? = some b) :
    l[i]? = some b ∨ i = l.length ∧ b = a := by
  rw [List.getElem?_append] at h
  split at h
  · exact .inl h
  · rename_i hi
    obtain ⟨hlt, rfl⟩ := List.getElem?_eq_some_iff.mp h
    rw [List.length_singleton] at hlt
    refine .inr ⟨by omega, ?_⟩
    rw [List.getElem_singleton]

/-- No branch tells twice, so there is an order in which branches have told. -/
theorem told_stepping {order : List Nat} (ho : s.Told order) (hstep : s.Stepping a t) :
    ∃ order, t.Told order := by
  have hlead := hstep.leadsTo
  cases hstep with
  | handsOut => exact ⟨order, ho.keep hlead rfl id fun i hi => hi⟩
  | launches hpending =>
    -- a branch that has just begun has nothing to tell
    refine ⟨order, ho.keep hlead rfl id fun i hi => ?_⟩
    obtain ⟨b, hb, htold⟩ := hi
    obtain hold | ⟨-, rfl⟩ := getElem?_concat hb
    · exact ⟨b, hold, htold⟩
    · cases htold
  | goes hb hgo =>
    -- the branch that goes on has not told, neither before nor now
    obtain ⟨-, -, -, hnot, -⟩ := Branch.going hgo
    refine ⟨order, ho.keep hlead rfl id fun i hi => ?_⟩
    obtain hi | ⟨-, htold⟩ := hasTold_set rfl hi
    · exact hi
    · cases hnot.symm.trans htold
  | @tells i address outcome hb hopen hroom =>
    exact ⟨order ++ [i], ho.concat hlead hb rfl hopen rfl (List.append_assoc _ _ _).symm⟩
  | drops hb hclosed =>
    -- nobody hears of it, so the branch does not count
    refine ⟨order, ⟨ho.nodup, fun j hj => (ho.told j hj).leadsTo hlead, ?_, fun hopen => ?_⟩⟩
    · exact ho.replies.imp fun _ _ hr => hr.leadsTo hlead
    · cases hclosed.symm.trans hopen
  | leaves hb =>
    refine ⟨order, ho.keep hlead rfl id fun i hi => ?_⟩
    obtain hi | ⟨rfl, -⟩ := hasTold_set rfl hi
    · exact hi
    · exact ⟨_, hb, rfl⟩
  | breaks hb =>
    -- a branch that is lost tells nothing
    refine ⟨order, ho.keep hlead rfl id fun i hi => ?_⟩
    obtain hi | ⟨-, htold⟩ := hasTold_set rfl hi
    · exact hi
    · cases htold
  | takes hreader hwaiting =>
    -- the reply moves from the front of what waits to the end of what was received
    refine ⟨order, ho.keep hlead ?_ id fun i hi => hi⟩
    rw [hwaiting, List.append_assoc]
    rfl
  | ends => exact ⟨order, ho.keep hlead rfl id fun i hi => hi⟩
  | hangsUp hreader => exact ⟨order.take s.received.length, ho.take hlead (List.append_nil _) rfl⟩
  | passes => exact ⟨order, ho.keep hlead rfl id fun i hi => hi⟩
  | others => exact ⟨order, ho.keep hlead rfl id fun i hi => hi⟩

theorem hasReader_iff : s.hasReader = true ↔ s.pending = none ∧
    s.stream.isOpen = true ∧ s.ended = false := by
  rw [hasReader, Bool.and_eq_true, Bool.and_eq_true, Option.isNone_iff_eq_none,
    Bool.not_eq_true', and_assoc]

/-- The branch that begins makes the call that is next. -/
theorem Sound.launched (h : Sound calls s) {address : String} {call : Work σ (Result Response)}
    {rest : Calls σ} (hpending : s.pending = some ((address, call) :: rest)) :
    calls[s.branches.length]? = some (address, call) ∧
    rest = calls.drop (s.branches.length + 1) := by
  have hdrop : (address, call) :: rest = calls.drop s.branches.length := by
    rw [← h.pending_eq, hpending]
    rfl
  constructor
  · rw [← List.head?_drop, ← hdrop]
    rfl
  · rw [← List.tail_drop, ← hdrop]
    rfl

theorem Sound.senders_pos (h : Sound calls s) {i : Nat} {b : Branch σ}
    (hb : s.branches[i]? = some b) (hgone : b.isGone = false) : 0 < s.stream.senders := by
  have hpos := unfinished_pos hb hgone
  rw [h.senders_eq]
  omega

/-- The sender goes that was there from the start, once all calls are under way. -/
theorem Sound.handOut (h : Sound calls s) (hpending : s.pending = some [])
    (ho : ∃ order, Told { s with pending := none, stream := s.stream.dropSender } order) :
    Sound calls { s with pending := none, stream := s.stream.dropSender } := by
  have hsenders := h.senders_eq
  rw [hpending, Option.toList_some, List.length_singleton] at hsenders
  refine ⟨h.room_eq, ?_, h.makes, ?_, ho, fun hended => ?_⟩
  · rw [← h.pending_eq, hpending]
    rfl
  · change s.stream.senders - 1 = 0 + unfinished s.branches
    omega
  · cases hpending.symm.trans (h.ended hended).1

/-- A branch begins with the whole of its call, and with a sender of its own. -/
theorem Sound.launch (h : Sound calls s) {address : String} {call : Work σ (Result Response)}
    {rest : Calls σ} (hpending : s.pending = some ((address, call) :: rest)) {t : Broadcast σ}
    (ht : t = { s with
      pending := some rest
      branches := s.branches ++ [⟨address, .calling s.clock.mono call⟩]
      stream := s.stream.addSender }) (ho : ∃ order, t.Told order) : Sound calls t := by
  subst ht
  have hsenders := h.senders_eq
  rw [hpending, Option.toList_some, List.length_singleton] at hsenders
  obtain ⟨hcall, hrest⟩ := h.launched hpending
  refine ⟨h.room_eq, ?_, fun i b hb => ?_, ?_, ho, fun hended => ?_⟩
  · rw [List.length_append, List.length_singleton]
    exact hrest
  · obtain hold | ⟨rfl, rfl⟩ := getElem?_concat hb
    · exact h.makes i b hold
    · refine ⟨(address, call), hcall, rfl, fun since left o hstage ho => ?_, nofun, nofun⟩
      cases hstage
      exact ho
  · change s.stream.senders + 1 = 1 + unfinished (s.branches ++ [_])
    rw [unfinished_append]
    omega
  · cases hpending.symm.trans (h.ended hended).1

/-- Whatever is done, the stream has a sender for each branch that is not gone, and its replies are
theirs. -/
theorem sound_stepping (h : Sound calls s) (hstep : s.Stepping a t) : Sound calls t := by
  obtain ⟨order, ho⟩ := h.order
  have horder := told_stepping ho hstep
  cases hstep with
  | handsOut hpending => exact h.handOut hpending horder
  | launches hpending => exact h.launch hpending rfl horder
  | goes hb hgo =>
    obtain ⟨since, left, hstage, -, hgone, -, -, -⟩ := Branch.going hgo
    refine h.set hb rfl (by rw [Branch.isGone, hstage])
      (fun call hmakes => hmakes.go hgo) rfl rfl ?_ rfl horder
    rw [hgone]
    rfl
  | tells hb hopen hroom =>
    exact h.set hb rfl rfl (fun call hmakes => hmakes.of_told rfl rfl rfl) rfl rfl rfl rfl horder
  | drops hb hclosed =>
    exact h.set hb rfl rfl (fun call hmakes => hmakes.of_told rfl rfl rfl) rfl rfl rfl rfl horder
  | leaves hb =>
    -- its sender is one of those that the stream has
    refine h.set hb rfl rfl (fun call hmakes => hmakes.of_told rfl rfl rfl) rfl rfl ?_ rfl horder
    exact Nat.sub_add_cancel (h.senders_pos hb rfl)
  | breaks hb =>
    refine h.set hb rfl rfl (fun call hmakes => hmakes.of_crash rfl) rfl rfl ?_ rfl horder
    exact Nat.sub_add_cancel (h.senders_pos hb rfl)
  | takes hreader hwaiting =>
    refine ⟨h.room_eq, h.pending_eq, h.makes, h.senders_eq, horder, fun hended => ?_⟩
    cases hended.symm.trans (hasReader_iff.mp hreader).2.2
  | ends hreader hwaiting hzero =>
    obtain ⟨hpending, hopen, -⟩ := hasReader_iff.mp hreader
    exact ⟨h.room_eq, h.pending_eq, h.makes, h.senders_eq, horder, fun _ =>
      ⟨hpending, hopen, hwaiting, hzero⟩⟩
  | hangsUp hreader =>
    refine ⟨h.room_eq, h.pending_eq, h.makes, h.senders_eq, horder, fun hended => ?_⟩
    cases hended.symm.trans (hasReader_iff.mp hreader).2.2
  | passes => exact ⟨h.room_eq, h.pending_eq, h.makes, h.senders_eq, horder, h.ended⟩
  | others => exact ⟨h.room_eq, h.pending_eq, h.makes, h.senders_eq, horder, h.ended⟩

theorem run?_cons : s.run? (a :: actions) = (s.step? a).bind fun t => t.run? actions :=
  List.foldlM_cons

theorem run?_append {more : List (Action σ)} :
    s.run? (actions ++ more) = (s.run? actions).bind fun t => t.run? more := List.foldlM_append

theorem leadsTo_run (h : s.run? actions = some t) : s.LeadsTo t := by
  induction actions generalizing s with
  | nil =>
    cases h
    exact leadsTo_of_eq rfl
  | cons a rest ih =>
    rw [run?_cons] at h
    obtain ⟨u, hstep, hrest⟩ := Option.bind_eq_some_iff.mp h
    exact (stepping hstep).leadsTo.trans (ih hrest)

theorem sound_run (h : Sound calls s) (hrun : s.run? actions = some t) : Sound calls t := by
  induction actions generalizing s with
  | nil =>
    cases hrun
    exact h
  | cons a rest ih =>
    rw [run?_cons] at hrun
    obtain ⟨u, hstep, hrest⟩ := Option.bind_eq_some_iff.mp hrun
    exact ih (sound_stepping h (stepping hstep)) hrest

/-! What can be done next, and what the reader can count on. -/

theorem Sound.length_le (h : Sound calls s) : s.branches.length ≤ calls.length := by
  by_contra hlt
  obtain ⟨call, hcall, -⟩ := h.makes _ _ (List.getElem?_eq_getElem (Nat.sub_one_lt (by omega)))
  have := (List.getElem?_eq_some_iff.mp hcall).1
  omega

/-- Fewer have told than there is room for, as long as one has not. -/
theorem Sound.length_lt (h : Sound calls s) {order : List Nat} (ho : s.Told order) {i : Nat}
    {b : Branch σ} (hb : s.branches[i]? = some b) (htold : b.hasTold = false) :
    order.length < calls.length := by
  -- this branch and those that have told are different branches, and all of them have begun
  have hnodup : (i :: order).Nodup := List.nodup_cons.mpr ⟨ho.not_mem hb htold, ho.nodup⟩
  have hsub : i :: order ⊆ List.range s.branches.length := by
    intro j hj
    rw [List.mem_range]
    obtain rfl | hj := List.mem_cons.mp hj
    · exact (List.getElem?_eq_some_iff.mp hb).1
    · obtain ⟨c, hc, -⟩ := ho.told j hj
      exact (List.getElem?_eq_some_iff.mp hc).1
  have hlength := (List.subperm_of_subset hnodup hsub).length_le
  rw [List.length_cons, List.length_range] at hlength
  have := h.length_le
  omega

/-- A branch that is to tell finds room, however slow the reader is. -/
theorem Sound.tells (h : Sound calls s) {i : Nat} {address : String} {outcome : Result Response}
    (hb : s.branches[i]? = some ⟨address, .telling outcome⟩) :
    (s.step? (.tell i)).isSome = true := by
  obtain ⟨order, ho⟩ := h.order
  -- what waits is some of what was told
  have hlt := h.length_lt ho hb rfl
  have hreplies := ho.replies.length_eq
  rw [List.length_append] at hreplies
  have hroom : s.stream.waiting.length < s.stream.room := by
    rw [h.room_eq]
    omega
  simp only [step?, tell?, hb, Channel.send?, hroom, ↓reduceIte]
  split
  · rfl
  · rfl

theorem Sound.length_eq (h : Sound calls s) (hpending : s.pending = none) :
    s.branches.length = calls.length := by
  have hdrop := h.pending_eq
  rw [hpending] at hdrop
  have := List.drop_eq_nil_iff.mp hdrop.symm
  have := h.length_le
  omega

theorem step?_read_of_cons (hreader : s.hasReader = true) {reply : InstanceReply}
    {rest : List InstanceReply} (hwaiting : s.stream.waiting = reply :: rest) :
    s.step? .read = some { s with
      stream := { s.stream with waiting := rest }
      received := s.received ++ [reply] } := by
  simp only [step?, read?, hreader, ↓reduceIte, Channel.receive?, hwaiting]

end Broadcast

section
variable {σ : Type} (f : String → Result Response → Result Response)

namespace Broadcast

end Broadcast
end
end RemoteCall
