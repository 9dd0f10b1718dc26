import RemoteCall.Proofs.Cluster.Stream

/-! Calls that are made side by side, as a schedule of their branches.

Each action and each reading of the clocks is one of some branch, and where all wait, time passes
until the first of them goes on. -/
namespace RemoteCall.Broadcast
variable {σ α β γ : Type}

open Work (all beside meanwhile)

inductive Moves (c : Clock) : σ → List (Branch σ) → σ → List (Branch σ) → Prop
  | refl (s : σ) (bs : List (Branch σ)) : Moves c s bs s bs
  | go {s s' s'' : σ} {bs bs'' : List (Branch σ)} {i : Nat} {b b' : Branch σ} (hb : bs[i]? = some b)
    (hgo : b.go? c s = some (b', s')) (h : Moves c s' (bs.set i b') s'' bs'') :
    Moves c s bs s'' bs''

theorem Moves.append_right {c : Clock} {s s' : σ} {bs bs' : List (Branch σ)}
    (h : Moves c s bs s' bs') (cs : List (Branch σ)) : Moves c s (bs ++ cs) s' (bs' ++ cs) := by
  induction h with
  | refl s bs => exact .refl s _
  | go hb hgo h ih =>
    have hlt := (List.getElem?_eq_some_iff.mp hb).1
    refine .go ((List.getElem?_append_left hlt).trans hb) hgo ?_
    rw [List.set_append_left _ _ hlt]
    exact ih

theorem Moves.append_left {c : Clock} {s s' : σ} {bs bs' : List (Branch σ)}
    (h : Moves c s bs s' bs') (cs : List (Branch σ)) : Moves c s (cs ++ bs) s' (cs ++ bs') := by
  induction h with
  | refl s bs => exact .refl s _
  | @go s s' s'' bs bs'' i b b' hb hgo h ih =>
    -- the numbers begin behind the others
    refine .go (i := cs.length + i) ?_ hgo ?_
    · rw [List.getElem?_append_right (Nat.le_add_right _ _), Nat.add_sub_cancel_left]
      exact hb
    · rw [List.set_append_right _ _ (Nat.le_add_right _ _), Nat.add_sub_cancel_left]
      exact ih

/-- From a time on, work does what branches can do, one thing after the other; `Q` says how its
outcome and the branches then stand to each other. -/
inductive Follows (Q : α → List (Branch σ) → Prop) : Work σ α → Int → List (Branch σ) → Prop
  | done {a : α} {now : Int} {bs : List (Branch σ)} (h : Q a bs) : Follows Q (.done a) now bs
  | act {f : σ → σ} {next : σ → Work σ α} {now : Int} {bs : List (Branch σ)}
    (after : σ → List (Branch σ)) (hmoves : ∀ c s, c.mono = now → Moves c s bs (f s) (after s))
    (h : ∀ s, Follows Q (next s) now (after s)) :
    Follows Q (.act f next) now bs
  | clock {next : Clock → Work σ α} {now : Int} {bs : List (Branch σ)}
    (after : Clock → List (Branch σ))
    (hmoves : ∀ c s, c.mono = now → Moves c s bs s (after c))
    (h : ∀ c, c.mono = now → Follows Q (next c) now (after c)) :
    Follows Q (.clock next) now bs
  | wait {span : Nat} {next : Work σ α} {now : Int} {bs : List (Branch σ)} (after : List (Branch σ))
    (hmoves : ∀ c s, c.mono = now + span → Moves c s bs s after)
    (h : Follows Q next (now + span) after) :
    Follows Q (.wait span next) now bs
  | never {now : Int} {bs : List (Branch σ)} : Follows Q .never now bs

section
variable {P : α → List (Branch σ) → Prop} {Q : β → List (Branch σ) → Prop}
  {R : γ → List (Branch σ) → Prop}
  {w : Work σ α} {v : Work σ β} {now : Int} {bs cs : List (Branch σ)}

/-- Branches that can do one piece of work and then the next can do both. -/
theorem Follows.bind {k : α → Work σ β} (hw : Follows P w now bs)
    (hk : ∀ a now bs, P a bs → Follows Q (k a) now bs) : Follows Q (w.bind k) now bs := by
  induction hw with
  | done h => exact hk _ _ _ h
  | act after hmoves h ih => exact .act after hmoves ih
  | clock after hmoves h ih => exact .clock after hmoves ih
  | wait after hmoves h ih => exact .wait after hmoves ih
  | never => exact .never

theorem Follows.imp {Q : α → List (Branch σ) → Prop} (hw : Follows P w now bs)
    (h : ∀ a bs, P a bs → Q a bs) : Follows Q w now bs := by
  have hbind := hw.bind (k := Work.done) (Q := Q) fun a _ bs ha => .done (h a bs ha)
  rwa [Work.bind_done] at hbind

/-- A limit only ever cuts. -/
theorem Follows.limit (hw : Follows P w now bs) (tie : Bool) (n : Nat) :
    Follows (fun o bs => ∀ a, o = some a → P a bs) (w.limit tie n) now bs := by
  have hcut {now : Int} (bs : List (Branch σ)) (n : Nat) :
      Follows (fun o bs => ∀ a, o = some a → P a bs) (.wait n (.done none)) now bs :=
    .wait bs (fun _ s _ => .refl s bs) (.done nofun)
  induction hw generalizing n with
  | @done a now bs h =>
    refine .done fun b hb => ?_
    cases hb
    exact h
  | act after hmoves h ih => exact .act after hmoves fun s => ih s n
  | clock after hmoves h ih => exact .clock after hmoves fun c hc => ih c hc n
  | @wait span next now bs after hmoves h ih =>
    rw [Work.limit]
    split
    · exact .wait after hmoves (ih (n - span))
    · exact hcut bs n
  | never => exact hcut _ n

/-- Other branches stand in front, and wait. -/
theorem Follows.append_left (hw : Follows P w now bs) (cs : List (Branch σ)) :
    Follows (fun a ds => ∃ bs, ds = cs ++ bs ∧ P a bs) w now (cs ++ bs) := by
  induction hw with
  | done h => exact .done ⟨_, rfl, h⟩
  | act after hmoves h ih => exact .act _ (fun c s hc => (hmoves c s hc).append_left cs) ih
  | clock after hmoves h ih => exact .clock _ (fun c s hc => (hmoves c s hc).append_left cs) ih
  | wait after hmoves h ih => exact .wait _ (fun c s hc => (hmoves c s hc).append_left cs) ih
  | never => exact .never

/-- Other branches stand behind, and wait. -/
theorem Follows.append_right (hw : Follows P w now bs) (cs : List (Branch σ)) :
    Follows (fun a ds => ∃ bs, ds = bs ++ cs ∧ P a bs) w now (bs ++ cs) := by
  induction hw with
  | done h => exact .done ⟨_, rfl, h⟩
  | act after hmoves h ih => exact .act _ (fun c s hc => (hmoves c s hc).append_right cs) ih
  | clock after hmoves h ih => exact .clock _ (fun c s hc => (hmoves c s hc).append_right cs) ih
  | wait after hmoves h ih => exact .wait _ (fun c s hc => (hmoves c s hc).append_right cs) ih
  | never => exact .never

/-- While one piece of work waits until a time, another goes on. -/
theorem follows_meanwhile {resume : Work σ β → Work σ γ} {ended : Nat → β → Work σ γ} {n : Nat}
    {due : Int} (hv : Follows Q v now bs) (hdue : now + n = due) (after : List (Branch σ))
    (hmoves : ∀ c s, c.mono = due → Moves c s cs s after)
    (hresume : ∀ v bs, Follows Q v due bs → Follows R (resume v) due (after ++ bs))
    (hended : ∀ (m : Nat) b now bs, now + m = due → Q b bs → Follows R (ended m b) now (cs ++ bs)) :
    Follows R (meanwhile resume ended n v) now (cs ++ bs) := by
  induction hv generalizing n with
  | done h => exact hended n _ _ _ hdue h
  | act next hmoves' h ih =>
    exact .act _ (fun c s hc => (hmoves' c s hc).append_left cs) fun s => ih s hdue
  | clock next hmoves' h ih =>
    exact .clock _ (fun c s hc => (hmoves' c s hc).append_left cs) fun c hc => ih c hc hdue
  | @wait span next now bs afterwards hmoves' h ih =>
    rw [meanwhile]
    split
    · -- the first wait ends before this one, which goes on from there
      rename_i hle
      have hend : due + (span - n : Nat) = now + span := by omega
      refine .wait (after ++ bs) (fun c s hc => (hmoves c s (hc.trans hdue)).append_right bs) ?_
      rw [hdue]
      apply hresume
      refine .wait afterwards (fun c s hc => hmoves' c s (hc.trans hend)) ?_
      rw [hend]
      exact h
    · rename_i hlt
      refine .wait _ (fun c s hc => (hmoves' c s hc).append_left cs) (ih ?_)
      omega
  | never =>
    -- nothing goes on before the first wait ends
    refine .wait (after ++ _) (fun c s hc => (hmoves c s (hc.trans hdue)).append_right _) ?_
    rw [hdue]
    exact hresume _ _ .never

/-- Two pieces of work side by side do what the branches of both can do. -/
theorem follows_beside {left : α → Work σ β → Work σ γ} {right : Work σ α → β → Work σ γ}
    (hw : Follows P w now cs) (hv : Follows Q v now bs)
    (hleft : ∀ a v now cs bs, P a cs → Follows Q v now bs → Follows R (left a v) now (cs ++ bs))
    (hright : ∀ w b now cs bs, Follows P w now cs → Q b bs → Follows R (right w b) now (cs ++ bs)) :
    Follows R (beside left right w v) now (cs ++ bs) := by
  induction hw generalizing v bs with
  | done h => exact hleft _ _ _ _ _ h hv
  | act after hmoves h ih =>
    exact .act _ (fun c s hc => (hmoves c s hc).append_right bs) fun s => ih s hv
  | clock after hmoves h ih =>
    exact .clock _ (fun c s hc => (hmoves c s hc).append_right bs) fun c hc => ih c hc hv
  | @wait span next now cs after hmoves h ih =>
    -- the other work goes on until this wait ends, or comes to an end before
    apply follows_meanwhile hv rfl after hmoves
    · intro v bs hv
      exact ih hv
    · intro m b now' bs hdue hb
      apply hright _ _ _ _ _ _ hb
      refine .wait after (fun c s hc => hmoves c s (hc.trans hdue)) ?_
      rw [hdue]
      exact h
  | never =>
    rw [beside]
    apply (hv.append_left _).bind
    rintro b now' - ⟨bs, rfl, hb⟩
    exact hright _ _ _ _ _ .never hb

end

def tellingOf (reply : InstanceReply) : Branch σ := ⟨reply.address, .telling reply.outcome⟩

namespace Branch

/-- The call of the branch has come to this outcome, or has broken down. -/
def IsDone (b : Branch σ) (o : Option (Result Response)) : Prop :=
  ∃ since, b.stage = .calling since (o.elim .crash .done)

theorem IsDone.eq {b : Branch σ} {o o' : Option (Result Response)} (h : b.IsDone o)
    (h' : b.IsDone o') : o = o' := by
  obtain ⟨since, h⟩ := h
  obtain ⟨since', h'⟩ := h'
  have hstage := h.symm.trans h'
  cases o <;> cases o' <;> cases hstage <;> rfl

def IsReady (b : Branch σ) : Option InstanceReply → Prop
  | some reply => b = tellingOf reply
  | none => b.IsDone none

end Branch

/-- Done on its own, a call does what its branch can do. -/
theorem follows_alone (address : String) (call : Work σ (Result Response)) (now : Int) :
    Follows (fun o bs => ∃ b : Branch σ, bs = [b] ∧ b.address = address ∧ b.IsDone o)
      call.caught now [⟨address, .calling now call⟩] := by
  induction call generalizing now with
  | done outcome => exact .done ⟨_, rfl, rfl, now, rfl⟩
  | act f next ih =>
    refine .act (fun s => [⟨address, .calling now (next s)⟩]) (fun c s hc => ?_) fun s => ih s now
    subst hc
    exact .go (i := 0) rfl rfl (.refl _ _)
  | clock next ih =>
    refine .clock (fun c => [⟨address, .calling now (next c)⟩]) (fun c s hc => ?_)
      fun c hc => ih c now
    subst hc
    exact .go (i := 0) rfl rfl (.refl _ _)
  | wait span next ih =>
    refine .wait [⟨address, .calling (now + span) next⟩] (fun c s hc => ?_) (ih (now + span))
    have hgo : Branch.go? ⟨address, .calling now (.wait span next)⟩ c s =
        some (⟨address, .calling (now + span) next⟩, s) := by
      rw [← hc]
      exact if_pos (Int.le_of_eq hc.symm)
    exact .go (i := 0) rfl hgo (.refl _ _)
  | never => exact .never
  | crash => exact .done ⟨_, rfl, rfl, now, rfl⟩

/-- So does a call that notes the time of its end. -/
theorem follows_call (address : String) (call : Work σ (Result Response)) (now : Int) :
    Follows (fun x bs => ∃ b : Branch σ, bs = [b] ∧ b.IsReady x.2)
      ((Option.map (InstanceReply.mk address) <$> call.caught).bind fun o => .clock
        fun c => .done (c.mono, o)) now
      [⟨address, .calling now call⟩] := by
  have hassoc : (Option.map (InstanceReply.mk address) <$> call.caught).bind
        (fun o => .clock fun c => .done (c.mono, o)) =
      call.caught.bind fun o => .clock fun c => .done (c.mono, o.map (InstanceReply.mk address)) :=
    Work.bind_assoc _ _ _
  rw [hassoc]
  apply (follows_alone address call now).bind
  rintro o now' - ⟨⟨address', stage⟩, rfl, rfl, since, rfl⟩
  cases o with
  | some o =>
    refine .clock (fun _ => [tellingOf ⟨address', o⟩]) (fun c s hc => ?_)
      fun c hc => .done ⟨_, rfl, rfl⟩
    exact .go (i := 0) rfl rfl (.refl s _)
  | none =>
    exact .clock (fun _ => _) (fun c s hc => .refl s _) fun c hc => .done ⟨_, rfl, since, rfl⟩

/-- Calls side by side do what their branches can do. -/
theorem follows_all (calls : Calls σ) (now : Int) :
    Follows (List.Forall₂ fun x b => Branch.IsReady b x.2)
      (all (calls.map fun (address, call) => Option.map (InstanceReply.mk address) <$> call.caught))
      now (calls.map fun (address, call) => ⟨address, .calling now call⟩) := by
  induction calls with
  | nil => exact .done .nil
  | cons call rest ih =>
    obtain ⟨address, call⟩ := call
    -- either this call or the rest comes to an end first, and the other one is then made on its own
    apply follows_beside (follows_call address call now) ih
    · rintro a v now cs bs ⟨b, rfl, hb⟩ hv
      apply (hv.append_left [b]).bind
      rintro others now' - ⟨bs, rfl, hbs⟩
      exact .done (.cons hb hbs)
    · intro w others now cs bs hw hothers
      apply (hw.append_right bs).bind
      rintro a now' - ⟨cs, rfl, b, rfl, hb⟩
      exact .done (.cons hb hothers)

/-- Some call has come to the outcome, and if that is not good, then all calls have come to one that
is not, or have broken down. -/
structure Decides (isGood : Result Response → Bool) (o : Option (Result Response))
    (bs : List (Branch σ)) : Prop where
  winner : ∀ a, o = some a → ∃ b ∈ bs, b.IsDone (some a)
  failures : o.any isGood = false → ∀ b ∈ bs, ∃ o', b.IsDone o' ∧
    o'.any isGood = false ∧ (o = none → o' = none)

section
variable {isGood : Result Response → Bool} {o later : Option (Result Response)}
  {bs cs ds : List (Branch σ)}

/-- Where one group of calls has failed, another one decides. -/
theorem Decides.or (h : Decides isGood o bs) (hbad : o.any isGood = false)
    (h' : Decides isGood later cs) (hmem : ∀ b, b ∈ ds ↔ b ∈ bs ∨ b ∈ cs) :
    Decides isGood (later.or o) ds := by
  refine ⟨fun a ha => ?_, fun hbad' b hb => ?_⟩
  · cases later with
    | some a' =>
      obtain ⟨b, hb, hdone⟩ := h'.winner a ha
      exact ⟨b, (hmem b).mpr (.inr hb), hdone⟩
    | none =>
      obtain ⟨b, hb, hdone⟩ := h.winner a ha
      exact ⟨b, (hmem b).mpr (.inl hb), hdone⟩
  · obtain hb | hb := (hmem b).mp hb
    · obtain ⟨o', hdone, hbad', hnone⟩ := h.failures hbad b hb
      exact ⟨o', hdone, hbad', fun ho => hnone (Option.or_eq_none_iff.mp ho).2⟩
    · have hlater : later.any isGood = false := by
        cases later with
        | some a => exact hbad'
        | none => rfl
      obtain ⟨o', hdone, hbad', hnone⟩ := h'.failures hlater b hb
      exact ⟨o', hdone, hbad', fun ho => hnone (Option.or_eq_none_iff.mp ho).1⟩

end

/-! From the start to the end of a broadcast that nothing disturbs. -/

def Reaches (s t : Broadcast σ) : Prop := ∃ actions, s.run? actions = some t

theorem Reaches.refl (s : Broadcast σ) : s.Reaches s := ⟨[], rfl⟩

theorem Reaches.trans {s t u : Broadcast σ} (h : s.Reaches t) (h' : t.Reaches u) : s.Reaches u := by
  obtain ⟨actions, hrun⟩ := h
  obtain ⟨more, hmore⟩ := h'
  refine ⟨actions ++ more, ?_⟩
  rw [run?_append, hrun]
  exact hmore

theorem Reaches.step {s t : Broadcast σ} {a : Action σ} (h : s.step? a = some t) : s.Reaches t := by
  refine ⟨[a], ?_⟩
  rw [run?_cons, h]
  rfl

/-- What branches do by themselves, the broadcast can do. -/
theorem Moves.reaches {c : Clock} {s s' : σ} {bs bs' : List (Branch σ)} (h : Moves c s bs s' bs')
    (x : Broadcast σ) : { x with clock := c, state := s, branches := bs }.Reaches
      { x with clock := c, state := s', branches := bs' } := by
  induction h with
  | refl s bs => exact .refl _
  | @go s s' s'' bs bs'' i b b' hb hgo h ih =>
    have hstep : { x with clock := c, state := s, branches := bs }.step? (.go i) =
        some { x with clock := c, state := s', branches := bs.set i b' } := by
      simp only [step?, go?, hb, hgo, Option.bind_eq_bind, Option.bind_some, Option.pure_def]
    exact (Reaches.step hstep).trans ih

/-- Where work ends, its branches can have come as far, with the same clocks and the same state. -/
theorem Follows.reaches {Q : α → List (Branch σ) → Prop} {w : Work σ α} {now : Int}
    {bs : List (Branch σ)} (h : Follows Q w now bs) (x : Broadcast σ) {c c' : Clock}
    (hc : c.mono = now) {s s' : σ} {a : α} (hrun : w.run c s = (some a, c', s')) : ∃ bs', Q a bs' ∧
      { x with clock := c, state := s, branches := bs }.Reaches
        { x with clock := c', state := s', branches := bs' } := by
  -- step by step of the work; only waiting moves the clocks
  induction h generalizing c s with
  | done h =>
    cases hrun
    exact ⟨_, h, .refl _⟩
  | act after hmoves h ih =>
    obtain ⟨bs', hbs', hreaches⟩ := ih s hc hrun
    exact ⟨bs', hbs', ((hmoves c s hc).reaches x).trans hreaches⟩
  | clock after hmoves h ih =>
    obtain ⟨bs', hbs', hreaches⟩ := ih c hc hc hrun
    exact ⟨bs', hbs', ((hmoves c s hc).reaches x).trans hreaches⟩
  | @wait span next now bs after hmoves h ih =>
    have hlater : (c.advance span).mono = now + span := congrArg (· + (span : Int)) hc
    obtain ⟨bs', hbs', hreaches⟩ := ih hlater hrun
    have hpass : { x with clock := c, state := s, branches := bs }.Reaches
        { x with clock := c.advance span, state := s, branches := bs } :=
        .step (a := .pass span) rfl
    exact ⟨bs', hbs', hpass.trans (((hmoves _ s hlater).reaches x).trans hreaches)⟩
  | never => cases hrun

/-- One branch begins after the other, and then the stream is handed out. -/
theorem reaches_launched (rest : Calls σ) (x : Broadcast σ) {m : Nat}
    (hpending : x.pending = some rest) (hsenders : x.stream.senders = m + 1) : x.Reaches { x with
      pending := none
      branches := x.branches ++ rest.map fun (address, call) =>
        ⟨address, .calling x.clock.mono call⟩
      stream := { x.stream with senders := m + rest.length } } := by
  induction rest generalizing x m with
  | nil =>
    apply Reaches.step (a := .launch)
    simp only [step?, launch?, hpending, Channel.dropSender, hsenders,
      Nat.add_sub_cancel, List.map_nil, List.append_nil, List.length_nil, Nat.add_zero]
  | cons call rest ih =>
    obtain ⟨address, call⟩ := call
    have hstep : x.step? .launch = some { x with
        pending := some rest
        branches := x.branches ++ [⟨address, .calling x.clock.mono call⟩]
        stream := x.stream.addSender } := by
      simp only [step?, launch?, hpending]
    -- the rest begins from there, with one sender more
    refine (Reaches.step hstep).trans ?_
    have hrest := ih { x with
        pending := some rest
        branches := x.branches ++ [⟨address, .calling x.clock.mono call⟩]
        stream := x.stream.addSender } rfl (m := m + 1) (congrArg (· + 1) hsenders)
    simp only [List.append_assoc, List.cons_append, List.nil_append, Channel.addSender] at hrest
    rw [List.length_cons, List.map_cons, Nat.add_comm rest.length 1, ← Nat.add_assoc]
    exact hrest

/-- A branch tells and leaves, and its reply is all that waits for the reader. -/
theorem reaches_left (x : Broadcast σ) (hopen : x.stream.isOpen = true)
    (hwaiting : x.stream.waiting = []) (hroom : 0 < x.stream.room) {i : Nat} {reply : InstanceReply}
    (hb : x.branches[i]? = some (tellingOf reply)) :
    x.Reaches { x with
      branches := x.branches.set i ⟨reply.address, .gone reply.outcome⟩
      stream := { x.stream with waiting := [reply], senders := x.stream.senders - 1 } } := by
  have hlt := (List.getElem?_eq_some_iff.mp hb).1
  let told : Broadcast σ := { x with
    branches := x.branches.set i ⟨reply.address, .told reply.outcome⟩
    stream := { x.stream with waiting := [reply] } }
  have htell : x.step? (.tell i) = some told := by
    simp only [step?, tell?, hb, tellingOf, Channel.send?, hopen, hwaiting,
      List.length_nil, hroom, Bool.not_true,
      Bool.false_eq_true, ↓reduceIte, Option.bind_eq_bind, Option.bind_some,
      Option.pure_def, List.nil_append, told]
  refine (Reaches.step htell).trans (.step (a := .leave i) ?_)
  have hi : told.branches[i]? = some ⟨reply.address, .told reply.outcome⟩ :=
    List.getElem?_set_self hlt
  simp only [step?, leave?, hi, Branch.leave?, Option.bind_eq_bind,
    Option.bind_some, Option.pure_def, told, List.set_set, Channel.dropSender]

/-- Then the reader takes it at once. -/
theorem reaches_told (x : Broadcast σ) (hreader : x.hasReader = true)
    (hwaiting : x.stream.waiting = []) (hroom : 0 < x.stream.room) {i : Nat} {reply : InstanceReply}
    (hb : x.branches[i]? = some (tellingOf reply)) : x.Reaches { x with
      branches := x.branches.set i ⟨reply.address, .gone reply.outcome⟩
      stream := x.stream.dropSender
      received := x.received ++ [reply] } := by
  obtain ⟨hpending, hopen, hended⟩ := hasReader_iff.mp hreader
  let left : Broadcast σ := { x with
    branches := x.branches.set i ⟨reply.address, .gone reply.outcome⟩
    stream := { x.stream with waiting := [reply], senders := x.stream.senders - 1 } }
  have hreads : left.hasReader = true := hasReader_iff.mpr ⟨hpending, hopen, hended⟩
  have hfront : left.stream.waiting = [reply] := rfl
  have hread : left.step? .read = some { x with
      branches := x.branches.set i ⟨reply.address, .gone reply.outcome⟩
      stream := x.stream.dropSender
      received := x.received ++ [reply] } := by
    rw [step?_read_of_cons hreads hfront]
    simp only [left, Channel.dropSender, hwaiting]
  exact (reaches_left x hopen hwaiting hroom hb).trans (.step hread)

/-- A branch whose call has broken down goes without a reply. -/
theorem reaches_lost (x : Broadcast σ) {i : Nat} {b : Branch σ} (hb : x.branches[i]? = some b)
    (hdone : b.IsDone none) : x.Reaches { x with
      branches := x.branches.set i ⟨b.address, .lost⟩
      stream := x.stream.dropSender } := by
  obtain ⟨address, stage⟩ := b
  obtain ⟨since, rfl⟩ := hdone
  apply Reaches.step (a := .leave i)
  simp only [step?, leave?, hb, Branch.leave?, Option.elim_none,
    Option.bind_eq_bind, Option.bind_some, Option.pure_def]

/-- A branch that is ready goes, and the reader has its reply if there is one. -/
theorem reaches_gone (x : Broadcast σ) (hreader : x.hasReader = true)
    (hwaiting : x.stream.waiting = []) (hroom : 0 < x.stream.room) {i : Nat} {b : Branch σ}
    {o : Option InstanceReply} (hb : x.branches[i]? = some b) (hready : b.IsReady o) :
    ∃ b', x.Reaches { x with
      branches := x.branches.set i b'
      stream := x.stream.dropSender
      received := x.received ++ o.toList } := by
  cases o with
  | some reply =>
    obtain rfl : b = tellingOf reply := hready
    exact ⟨_, reaches_told x hreader hwaiting hroom hb⟩
  | none =>
    refine ⟨⟨b.address, .lost⟩, ?_⟩
    rw [Option.toList_none, List.append_nil]
    exact reaches_lost x hb hready

/-- Branches that are ready can go in any order, while the reader takes each reply at once. -/
theorem reaches_delivered (order : List Nat) (x : Broadcast σ) (hreader : x.hasReader = true)
    (hwaiting : x.stream.waiting = []) (hroom : 0 < x.stream.room) (horder : order.Nodup)
    {outcomes : List (Option InstanceReply)}
    (h : List.Forall₂ (fun i o => ∃ b : Branch σ, x.branches[i]? = some b ∧ b.IsReady o)
      order outcomes) :
    ∃ bs', x.Reaches { x with
      branches := bs'
      stream := { x.stream with senders := x.stream.senders - order.length }
      received := x.received ++ outcomes.flatMap Option.toList } := by
  induction order generalizing x outcomes with
  | nil =>
    cases h
    refine ⟨x.branches, ?_⟩
    rw [List.flatMap_nil, List.append_nil]
    exact .refl x
  | cons i order ih =>
    obtain ⟨hi, horder⟩ := List.nodup_cons.mp horder
    cases h with
    | @cons _ o _ outcomes hb h =>
      obtain ⟨b, hb, hready⟩ := hb
      obtain ⟨b', hgone⟩ := reaches_gone x hreader hwaiting hroom hb hready
      -- the branches that come later are not touched
      have hothers : List.Forall₂
          (fun j o' => ∃ b : Branch σ, (x.branches.set i b')[j]? = some b ∧ b.IsReady o')
          order outcomes := by
        have hne : ∀ j ∈ order, i ≠ j := fun j hj heq => hi (heq ▸ hj)
        apply ((List.forall₂_and_left order outcomes).mpr ⟨hne, h⟩).imp
        intro j o' hj
        rw [List.getElem?_set_ne hj.1]
        exact hj.2
      obtain ⟨bs', hrest⟩ := ih { x with
        branches := x.branches.set i b'
        stream := x.stream.dropSender
        received := x.received ++ o.toList } hreader hwaiting hroom horder hothers
      refine ⟨bs', hgone.trans ?_⟩
      simp only [List.append_assoc, Channel.dropSender, Nat.sub_sub] at hrest
      rw [List.length_cons, Nat.add_comm, List.flatMap_cons]
      exact hrest

/-- What calls come to that are made side by side, a reader of their broadcast can get, in any
order. -/
theorem reaches_ended (calls : Calls σ) (hcalls : calls ≠ []) {c c' : Clock} {s s' : σ}
    {outcomes : List (Int × Option InstanceReply)}
    (hrun : (all (calls.map fun (address, call) => Option.map (InstanceReply.mk address) <$>
      call.caught)).run c s = (some outcomes, c', s')) {sorted : List (Option InstanceReply)}
    (hsorted : sorted.Perm (outcomes.map (·.2))) :
    ∃ t, (start c s calls).Reaches t ∧ t.ended = true ∧
      t.received = sorted.flatMap Option.toList ∧ t.clock = c' ∧ t.state = s' := by
  -- all calls begin at once, and are made as if side by side
  have hlaunched := reaches_launched calls (start c s calls) (m := 0) rfl rfl
  obtain ⟨bs, hbs, hmoved⟩ := (follows_all calls c.mono).reaches { start c s calls with
    pending := none
    stream := { (start c s calls).stream with senders := 0 + calls.length } } rfl hrun
  let x : Broadcast σ := { start c' s' calls with
    pending := none
    branches := bs
    stream := { (start c s calls).stream with senders := 0 + calls.length } }
  have hx : (start c s calls).Reaches x := hlaunched.trans hmoved
  have hlength : outcomes.length = calls.length := by
    obtain ⟨actions, hactions⟩ := hx
    exact hbs.length_eq.trans ((sound_run (sound_start c s calls) hactions).length_eq rfl)
  -- the branches go in the order of the outcomes
  have hnumbered : List.Forall₂ (fun o i => ∃ b : Branch σ, x.branches[i]? = some b ∧ b.IsReady o)
      (outcomes.map (·.2)) (List.range outcomes.length) := by
    refine List.forall₂_iff_get.mpr ⟨by rw [List.length_map, List.length_range], fun i hi hi' => ?_⟩
    rw [List.length_range] at hi'
    have hi'' : i < bs.length := hbs.length_eq ▸ hi'
    refine ⟨bs[i], ?_, ?_⟩
    · rw [List.get_eq_getElem, List.getElem_range]
      exact List.getElem?_eq_getElem hi''
    · rw [List.get_eq_getElem, List.getElem_map]
      exact hbs.get hi' hi''
  obtain ⟨order, horder, hperm⟩ := List.perm_comp_forall₂ hsorted hnumbered
  have hnodup : order.Nodup := hperm.nodup_iff.mpr List.nodup_range
  have hroom : 0 < x.stream.room := List.length_pos_iff.mpr hcalls
  obtain ⟨bs', hdelivered⟩ := reaches_delivered order x rfl rfl hroom hnodup horder.flip
  -- then nobody has a sender any more
  have hend : x.stream.senders - order.length = 0 := by
    rw [hperm.length_eq, List.length_range, hlength]
    change 0 + calls.length - calls.length = 0
    omega
  rw [hend] at hdelivered
  refine ⟨_, (hx.trans hdelivered).trans (.step (a := .read) rfl), rfl, ?_, rfl, rfl⟩
  exact List.nil_append _

end RemoteCall.Broadcast
