import RemoteCall.Proofs.Registry.Listed
import RemoteCall.Proofs.Work
import RemoteCall.Proofs.Work.Ends
import RemoteCall.Server.Announcing

/-! A server is announced with all its announcements or with none.

What an announcer does is unknown: it may fail, and it may not come back at all, so each call has a
limit of time and therefore an outcome. A start makes its calls one after the other up to the first
that fails; a sweep over all announcements follows the failure, whatever its own calls come to. -/
namespace RemoteCall
variable {σ τ α β : Type}

namespace Work
variable {c c' c'' : Clock} {s s' s'' : σ} {P : σ → Prop}

/-- Work under a limit of time has an outcome. -/
theorem ends_timeLimit {w : Work σ (Result α)} (hw : w.IsIntact) (span : Duration) (late : Error)
    (c : Clock) (s : σ) : (w.timeLimit span late).Ends c s fun _ _ _ => True := by
  apply ends_clock
  apply ends_bind
  obtain ⟨o, c', s', hlimit⟩ :=
    exists_run_limit hw true (Clock.timerTick (c.mono + span.nanos) - c.mono).toNat c s
  exact ⟨o, c', s', hlimit, ends_pure trivial⟩

theorem run_mapM_cons {f : α → Work σ β} {a : α} {l : List α} {b : β} {bs : List β}
    (ha : (f a).run c s = (some b, c', s')) (hl : (l.mapM f).run c' s' = (some bs, c'', s'')) :
    ((a :: l).mapM f).run c s = (some (b :: bs), c'', s'') := by
  rw [List.mapM_cons, run_bind ha, run_bind hl]
  rfl

/-- Work on each of some things ends if it ends on every one. -/
theorem ends_mapM {f : α → Work σ β} {l : List α} (hf : ∀ a c s, (f a).Ends c s fun _ _ _ => True) :
    ∃ outcomes c' s', (l.mapM f).run c s = (some outcomes, c', s') := by
  induction l generalizing c s with
  | nil => exact ⟨[], c, s, rfl⟩
  | cons a l ih =>
    obtain ⟨b, c₁, s₁, ha, -⟩ := hf a c s
    obtain ⟨bs, c₂, s₂, hl⟩ := @ih c₁ s₁
    exact ⟨b :: bs, c₂, s₂, run_mapM_cons ha hl⟩

theorem keeps_mapM {f : α → Work σ β} {l : List α} (hf : ∀ a ∈ l, (f a).Keeps P fun _ => True) :
    (l.mapM f).Keeps P fun _ => True := by
  induction l with
  | nil => exact keeps_pure trivial
  | cons a l ih =>
    rw [List.mapM_cons]
    apply keeps_bind (hf a List.mem_cons_self)
    intro b _
    apply keeps_bind (ih fun a' ha' => hf a' (List.mem_cons_of_mem a ha'))
    intro bs _
    exact keeps_pure trivial

/-- What work on a part keeps of the part, it keeps of the whole. -/
theorem keeps_onPart {P : τ → Prop} {Q : α → Prop} {w : Work τ α} (part : Part σ τ)
    (hw : w.Keeps P Q) : (w.onPart part).Keeps (fun s => P (part.get s)) Q := by
  induction hw with
  | done a ha => exact .done a ha
  | act f next hf hnext ih =>
    refine .act _ _ (fun s hs => ?_) fun s hs => ih (part.get s) hs
    rw [Part.get_modify]
    exact hf _ hs
  | clock next hnext ih => exact .clock _ ih
  | wait span next hnext ih => exact .wait span _ ih
  | never => exact .never
  | crash => exact .crash

end Work

def firstFailure (outcomes : List (Result Unit)) : Result Unit :=
  outcomes.forM fun outcome => outcome

theorem firstFailure_cons (outcome : Result Unit) (outcomes : List (Result Unit)) :
    firstFailure (outcome :: outcomes) =
      match outcome with
      | .error e => .error e
      | .ok () => firstFailure outcomes := by
  cases outcome with
  | error e => rfl
  | ok => rfl

theorem firstFailure_append (outcomes : List (Result Unit)) (last : Result Unit) :
    firstFailure (outcomes ++ [last]) =
      match firstFailure outcomes with
      | .error e => .error e
      | .ok () => last := by
  induction outcomes with
  | nil =>
    rw [List.nil_append, firstFailure_cons]
    cases last with
    | error e => rfl
    | ok => rfl
  | cons outcome outcomes ih =>
    rw [List.cons_append, firstFailure_cons, firstFailure_cons]
    cases outcome with
    | error e => rfl
    | ok => exact ih

namespace RunningServer
variable (r : RunningServer σ) (entrance : Entrance σ) {pairs : List (String × Announcer σ)}
  {c : Clock} {s : σ}

/-- A sweep asks for every withdrawal, in order, and yields the first failure. -/
theorem unregisterAll_eq (pairs : List (String × Announcer σ)) :
    r.unregisterAll pairs = firstFailure <$> pairs.mapM r.unregister := by
  induction pairs with
  | nil => rfl
  | cons pair rest ih =>
    rw [unregisterAll, ih, List.mapM_cons, map_bind]
    apply bind_congr
    intro first
    rw [bind_map_left, map_bind]
    apply bind_congr
    intro outcomes
    rw [map_pure]
    exact congrArg pure (firstFailure_cons first outcomes).symm

/-- Withdrawing comes to an end, whatever fails. -/
theorem exists_unregister (pairs : List (String × Announcer σ)) (c : Clock) (s : σ) :
    ∃ outcomes c' s', (pairs.mapM r.unregister).run c s = (some outcomes, c', s') :=
  Work.ends_mapM fun pair => Work.ends_timeLimit (pair.2.intact_unregister _ _) _ _

/-- A closing server asks for every withdrawal, then stops. -/
theorem close_run {outcomes : List (Result Unit)} {c' : Clock} {s' : σ}
    (h : (r.server.pairs.mapM r.unregister).run c s = (some outcomes, c', s')) :
    (r.close entrance).run c s =
      ((fun stopped => firstFailure (outcomes ++ [stopped])) <$> entrance.stop).run c' s' := by
  -- the stop comes after the whole sweep, and its failure counts last
  have hsweep : (r.unregisterAll r.server.pairs).run c s =
      (some (firstFailure outcomes), c', s') := by
    rw [unregisterAll_eq, Work.run_map, h]
    rfl
  rw [close, Work.run_bind hsweep]
  simp only [firstFailure_append]
  rfl

/-- How announcing goes: all well, or well up to a failure, after which nothing more is announced.
-/
theorem registerAll_run (pairs : List (String × Announcer σ)) (c : Clock) (s : σ) :
    (∃ c' s', (pairs.mapM r.register).run c s = (some (pairs.map fun _ => .ok ()), c', s') ∧
      (r.registerAll pairs).run c s = (some (.ok ()), c', s')) ∨
    ∃ before pair after e c' s', pairs = before ++ pair :: after ∧
      ((before ++ [pair]).mapM r.register).run c s =
        (some (before.map (fun _ => .ok ()) ++ [.error e]), c', s') ∧
      (r.registerAll pairs).run c s = (some (.error e), c', s') := by
  -- pair by pair, until the first that fails
  induction pairs generalizing c s with
  | nil => exact .inl ⟨c, s, rfl, rfl⟩
  | cons pair rest ih =>
    obtain ⟨outcome, c₁, s₁, hpair, -⟩ : (r.register pair).Ends c s fun _ _ _ => True :=
      Work.ends_timeLimit (pair.2.intact_register _ _) _ _ c s
    rw [registerAll, Work.run_bind hpair]
    cases outcome with
    | error e =>
      refine .inr ⟨[], pair, rest, e, c₁, s₁, rfl, ?_, rfl⟩
      exact Work.run_mapM_cons hpair rfl
    | ok =>
      obtain ⟨c₂, s₂, hrest, hall⟩ | ⟨before, p, after, e, c₂, s₂, rfl, hbefore, hall⟩ := ih c₁ s₁
      · exact .inl ⟨c₂, s₂, Work.run_mapM_cons hpair hrest, hall⟩
      · exact .inr ⟨pair :: before, p, after, e, c₂, s₂, rfl,
          Work.run_mapM_cons hpair hbefore, hall⟩

/-- The ways in which announcing can go that finds these clocks and this state, with what comes of
it: all is announced, or what follows the first failure is the sweep over everything and then the
stop. -/
inductive Announces (c : Clock) (s : σ) : Option (Result (RunningServer σ)) × Clock × σ → Prop
  | all {c₁ : Clock} {s₁ : σ}
    (hregister : (r.server.pairs.mapM r.register).run c s =
      (some (r.server.pairs.map fun _ => .ok ()), c₁, s₁)) :
    Announces c s (some (.ok r), c₁, s₁)
  | withdrawn {before after : List (String × Announcer σ)} {pair : String × Announcer σ} {e : Error}
    {outcomes : List (Result Unit)} {c₁ c₂ : Clock} {s₁ s₂ : σ}
    (hpairs : r.server.pairs = before ++ pair :: after)
    (hregister : ((before ++ [pair]).mapM r.register).run c s =
      (some (before.map (fun _ => .ok ()) ++ [.error e]), c₁, s₁))
    (hunregister : (r.server.pairs.mapM r.unregister).run c₁ s₁ = (some outcomes, c₂, s₂)) :
    Announces c s (((fun _ => .error e) <$> entrance.stop).run c₂ s₂)

/-- Announcing goes in one of these ways. -/
theorem announces_run (c : Clock) (s : σ) : r.Announces entrance c s
    ((r.announce entrance).run c s) := by
  rw [announce]
  obtain ⟨c₁, s₁, hregister, hall⟩ | ⟨before, pair, after, e, c₁, s₁, hpairs, hregister, hall⟩ :=
    r.registerAll_run r.server.pairs c s
  · rw [Work.run_bind hall]
    exact .all hregister
  · obtain ⟨outcomes, c₂, s₂, hunregister⟩ := r.exists_unregister r.server.pairs c₁ s₁
    -- what the sweep and the stop come to makes no difference to the outcome
    have hclose :
        ((fun _ => .error e) <$> r.close entrance : Work σ (Result (RunningServer σ))).run c₁ s₁ =
        ((fun _ => .error e) <$> entrance.stop).run c₂ s₂ := by
      rw [Work.run_map, r.close_run entrance hunregister, Work.run_map,
        Work.run_map, Option.map_map]
      rfl
    rw [Work.run_bind hall]
    exact hclose ▸ .withdrawn hpairs hregister hunregister

end RunningServer

namespace Server
variable (s : Server σ) (entrance : Entrance σ)

/-- The ways in which a start can go that finds these clocks and this state, with what comes of it.
-/
inductive Starts (c : Clock) (t : σ) : Option (Result (RunningServer σ)) × Clock × σ → Prop
  | waiting {c₁ : Clock} {t₁ : σ}
    (hlisten : (entrance.listen s.config.addr).run c t = (none, c₁, t₁)) :
    Starts c t (none, c₁, t₁)
  | unheard {e : Error} {c₁ : Clock} {t₁ : σ}
    (hlisten : (entrance.listen s.config.addr).run c t = (some (.error e), c₁, t₁)) :
    Starts c t (some (.error e), c₁, t₁)
  | heard {bound : PeerAddress} {c₁ : Clock} {t₁ : σ}
    {x : Option (Result (RunningServer σ)) × Clock × σ}
    (hlisten : (entrance.listen s.config.addr).run c t = (some (.ok bound), c₁, t₁))
    (hannounce : (s.running bound).Announces entrance c₁
      (entrance.welcomeAll s.handler s.gates s.config.nodelay t₁) x) :
    Starts c t x

/-- A start goes in one of these ways. -/
theorem starts_run (c : Clock) (t : σ) : s.Starts entrance c t ((s.start entrance).run c t) := by
  rw [start]
  rcases hlisten : (entrance.listen s.config.addr).run c t with ⟨_ | _ | bound, c₁, t₁⟩
  · rw [Work.run_bind_of_none hlisten]
    exact .waiting hlisten
  · rw [Work.run_bind hlisten]
    exact .unheard hlisten
  · rw [Work.run_bind hlisten]
    exact .heard hlisten ((s.running bound).announces_run entrance c₁ _)

end Server

namespace ListedRegistry
variable {registry : ListedRegistry} {service address : String}

/-- Nobody who asks for the service is told of the address. -/
def Lacks (service address : String) (registry : ListedRegistry) : Prop :=
  ∀ i ∈ registry.list service, i.address ≠ address

theorem lacks_unregister (a : Announcement) :
    (registry.unregister (a.inst service address)).Lacks service address := by
  intro i hi haddress
  obtain ⟨hmem, hname⟩ := mem_list.mp hi
  have hother := (mem_unregister.mp hmem).2
  rw [Instance.sameIdentity_iff.mpr ⟨hname, haddress⟩] at hother
  cases hother

theorem Lacks.unregister (h : registry.Lacks service address) (j : Instance) :
    (registry.unregister j).Lacks service address := by
  intro i hi
  obtain ⟨hmem, hname⟩ := mem_list.mp hi
  exact h i (mem_list.mpr ⟨(mem_unregister.mp hmem).1, hname⟩)

end ListedRegistry

section
variable (part : Part σ ListedRegistry) (service address : String)

def Work.LeavesOut (w : Work σ α) : Prop :=
  w.Keeps (fun s => (part.get s).Lacks service address) fun _ => True

/-- While a server withdraws, nobody lists its service at its address: neither the other announcers
nor the entrance. -/
structure Server.WithdrawsFrom (s : Server σ) (entrance : Entrance σ) : Prop where
  announcers : ∀ other ∈ s.announcers, (∃ a : Announcement, other = a.listed.onPart part) ∨
    ∀ name, (other.unregister name address).LeavesOut part service address
  stop : entrance.stop.LeavesOut part service address

end

theorem Server.mem_pairs {s : Server σ} {pair : String × Announcer σ} :
    pair ∈ s.pairs ↔ (∃ service ∈ s.services, service.name = pair.1) ∧ pair.2 ∈ s.announcers := by
  obtain ⟨name, announcer⟩ := pair
  simp only [Server.pairs, List.mem_flatMap, List.mem_map, Prod.mk.injEq]
  constructor
  · rintro ⟨service, hservice, announcer, ha, rfl, rfl⟩
    exact ⟨⟨service, hservice, rfl⟩, ha⟩
  · rintro ⟨⟨service, hservice, rfl⟩, ha⟩
    exact ⟨service, hservice, announcer, ha, rfl, rfl⟩

namespace RunningServer
variable {part : Part σ ListedRegistry} {service : String} {r : RunningServer σ}
  {entrance : Entrance σ} {pairs : List (String × Announcer σ)}

/-- To withdraw from an announcer lists nothing. -/
theorem leavesOut_unregister (h : r.server.WithdrawsFrom part service r.advertised entrance)
    {pair : String × Announcer σ} (hpair : pair.2 ∈ r.server.announcers) :
    (r.unregister pair).LeavesOut part service r.advertised := by
  apply Work.keeps_timeLimit _ trivial
  -- it is an announcer of a registry on the same part, or one that leaves the address out
  obtain ⟨a, ha⟩ | hother := h.announcers pair.2 hpair
  · rw [ha]
    apply Work.keeps_onPart part (P := ListedRegistry.Lacks service r.advertised)
    apply Work.keeps_bind (Work.keeps_modify fun registry hlacks => hlacks.unregister _)
    intro _ _
    exact Work.keeps_pure trivial
  · exact hother pair.1

/-- A sweep that comes to an announcement in a registry withdraws it for good. -/
theorem lacks_sweep (part : Part σ ListedRegistry) {a : Announcement}
    (hpairs : ∀ pair ∈ pairs, (r.unregister pair).LeavesOut part service r.advertised)
    (ha : (service, a.listed.onPart part) ∈ pairs) (c : Clock) (s : σ) :
    (part.get ((pairs.mapM r.unregister).run c s).2.2).Lacks service r.advertised := by
  induction pairs generalizing c s with
  | nil => cases ha
  | cons pair rest ih =>
    have hrest := fun p hp => hpairs p (List.mem_cons_of_mem pair hp)
    obtain ⟨outcome, c₁, s₁, hpair, -⟩ : (r.unregister pair).Ends c s fun _ _ _ => True :=
      Work.ends_timeLimit (pair.2.intact_unregister _ _) _ _ c s
    obtain ⟨outcomes, c₂, s₂, hrun⟩ := r.exists_unregister rest c₁ s₁
    rw [Work.run_mapM_cons hpair hrun]
    have hs₂ : ((rest.mapM r.unregister).run c₁ s₁).2.2 = s₂ := by rw [hrun]
    rw [← hs₂]
    cases ha with
    | head =>
      -- it is withdrawn here, and the others do not list it again
      have hs₁ : s₁ = part.modify
          (fun registry => registry.unregister (a.inst service r.advertised)) s :=
        (congrArg (fun x => x.2.2) hpair).symm
      apply (Work.keeps_run (Work.keeps_mapM hrest) _).1
      rw [hs₁, Part.get_modify]
      exact ListedRegistry.lacks_unregister a
    | tail _ ha => exact ih hrest ha c₁ s₁

variable {a : Announcement} {c c' : Clock} {s s' : σ}

/-- What was announced in a registry is withdrawn when the server has stopped after a sweep. -/
theorem lacks_stop (h : r.server.WithdrawsFrom part service r.advertised entrance)
    (ha : (service, a.listed.onPart part) ∈ r.server.pairs) {outcomes : List (Result Unit)}
    (hrun : (r.server.pairs.mapM r.unregister).run c s = (some outcomes, c', s'))
    (f : Result Unit → β) :
    (part.get ((f <$> entrance.stop).run c' s').2.2).Lacks service r.advertised := by
  have hswept := lacks_sweep part
    (fun pair hpair => leavesOut_unregister h (Server.mem_pairs.mp hpair).2)
    ha c s
  rw [hrun] at hswept
  rw [Work.run_map]
  exact (Work.keeps_run h.stop hswept).1

/-- After closing nobody is told of an address that was announced. -/
theorem lacks_close (h : r.server.WithdrawsFrom part service r.advertised entrance)
    (ha : (service, a.listed.onPart part) ∈ r.server.pairs) (c : Clock) (s : σ) :
    (part.get ((r.close entrance).run c s).2.2).Lacks service r.advertised := by
  obtain ⟨outcomes, c', s', hrun⟩ := r.exists_unregister r.server.pairs c s
  rw [r.close_run entrance hrun]
  exact lacks_stop h ha hrun _

theorem Announces.lacks {x : Option (Result (RunningServer σ)) × Clock × σ}
    (hx : r.Announces entrance c s x)
    (h : r.server.WithdrawsFrom part service r.advertised entrance)
    (ha : (service, a.listed.onPart part) ∈ r.server.pairs) (hfailed : x.1 ≠ some (.ok r)) :
    (part.get x.2.2).Lacks service r.advertised := by
  cases hx with
  | all => exact absurd rfl hfailed
  | withdrawn hpairs hregister hunregister => exact lacks_stop h ha hunregister _

end RunningServer

namespace Server
variable {s : Server σ} {entrance : Entrance σ}

theorem Starts.announces {c c₁ : Clock} {t t₁ : σ} {bound : PeerAddress}
    {x : Option (Result (RunningServer σ)) × Clock × σ} (hx : s.Starts entrance c t x)
    (hlisten : (entrance.listen s.config.addr).run c t = (some (.ok bound), c₁, t₁)) :
    (s.running bound).Announces entrance c₁
      (entrance.welcomeAll s.handler s.gates s.config.nodelay t₁) x := by
  cases hx with
  | waiting hlisten' => cases hlisten.symm.trans hlisten'
  | unheard hlisten' => cases hlisten.symm.trans hlisten'
  | heard hlisten' hannounce =>
    cases hlisten.symm.trans hlisten'
    exact hannounce

/-- A start announces everything, or fails, sweeps over every announcement, made or not, and stops.
Closing is the same sweep before the stop. Either way a registry does not list the server any more.
-/
theorem all_or_nothing (s : Server σ) (entrance : Entrance σ) :
    (∀ c t, s.Starts entrance c t ((s.start entrance).run c t)) ∧
    (∀ bound c t, ∃ outcomes c' t',
      (s.pairs.mapM (s.running bound).unregister).run c t = (some outcomes, c', t') ∧
      ((s.running bound).close entrance).run c t =
        ((fun stopped => firstFailure (outcomes ++ [stopped])) <$> entrance.stop).run c' t') ∧
    ∀ (part : Part σ ListedRegistry) (a : Announcement) (service : Service (Work σ))
      (bound : PeerAddress),
      a.listed.onPart part ∈ s.announcers → service ∈ s.services →
      s.WithdrawsFrom part service.name (s.running bound).advertised entrance →
      (∀ c t, (part.get (((s.running bound).close entrance).run c t).2.2).Lacks service.name
        (s.running bound).advertised) ∧
      ∀ c t c₁ t₁, (entrance.listen s.config.addr).run c t = (some (.ok bound), c₁, t₁) →
        ((s.start entrance).run c t).1 ≠ some (.ok (s.running bound)) →
        (part.get ((s.start entrance).run c t).2.2).Lacks service.name
          (s.running bound).advertised := by
  refine ⟨s.starts_run entrance, fun bound c t => ?_, ?_⟩
  · obtain ⟨outcomes, c', t', hrun⟩ := (s.running bound).exists_unregister s.pairs c t
    exact ⟨outcomes, c', t', hrun, (s.running bound).close_run entrance hrun⟩
  · intro part a service bound ha hservice h
    have hpair : (service.name, a.listed.onPart part) ∈ s.pairs :=
      mem_pairs.mpr ⟨⟨service, hservice, rfl⟩, ha⟩
    refine ⟨RunningServer.lacks_close (r := s.running bound) h hpair,
      fun c t c₁ t₁ hlisten hfailed => ?_⟩
    exact ((s.starts_run entrance c t).announces hlisten).lacks h hpair hfailed

def refusing : Announcer ListedRegistry where
  register _ _ := pure (.error (.ofKind .registry))
  unregister _ _ := pure (.ok ())
  intact_register _ _ := trivial
  intact_unregister _ _ := trivial

/-- Two services; of each the first announcer makes an entry in a registry before the second one
fails. -/
def halfAnnounced : Server ListedRegistry where
  config := { advertiseAddr := some "h:1" }
  services := [{ name := "a" }, { name := "b" }]
  announcers := [(Announcement.listed {}).onPart .whole, refusing]

def quiet : Entrance ListedRegistry where
  listen _ := pure (.ok default)
  welcomeAll _ _ _ registry := registry
  stop := pure (.ok ())

/-- The entry that was made before the second announcer failed is gone. -/
theorem halfAnnounced_lacks :
    ((halfAnnounced.start quiet).run ⟨0, 0⟩ {}).1 = some (.error (.ofKind .registry)) ∧
    ((halfAnnounced.start quiet).run ⟨0, 0⟩ {}).2.2.Lacks "a" "h:1" := by
  have hleft : halfAnnounced.WithdrawsFrom .whole "a" "h:1" quiet := by
    refine ⟨fun other hother => ?_, Work.keeps_pure trivial⟩
    obtain rfl | rfl : other = (Announcement.listed {}).onPart .whole ∨ other = refusing := by
      simpa [halfAnnounced] using hother
    · exact .inl ⟨{}, rfl⟩
    · exact .inr fun _ => Work.keeps_pure trivial
  have hrun : ((halfAnnounced.start quiet).run ⟨0, 0⟩ {}).1 = some (.error (.ofKind .registry)) :=
    rfl
  refine ⟨hrun, ?_⟩
  have h := (all_or_nothing halfAnnounced quiet).2.2 .whole {}
    { name := "a" } default List.mem_cons_self
    List.mem_cons_self hleft
  apply h.2 ⟨0, 0⟩ {} ⟨0, 0⟩ {} rfl
  rw [hrun]
  exact nofun

end Server
end RemoteCall
