import RemoteCall.Proofs.Registry.Owners
import RemoteCall.Proofs.Store.Lifetimes

/-! What breaks a store.

A lease may be granted for a span that no clock can hold the end of, or that none will be able to
hold the end of when it is renewed. The caller then ends in the midst of its change. What was there
stays as it is, but nobody can ask for it any more. Nothing else breaks a store. -/
namespace RemoteCall

namespace Store
variable {s : Store} {a : Action}

/-- The action begins a span that ends when no clock can hold it. -/
inductive Overruns (s : Store) : Action → Prop
  | grant (span : Duration) (hpos : span.isZero = false)
    (h : ¬ Clock.Representable (s.now + span.nanos)) :
    Overruns s (.grant span)
  | keepAlive (lease : Nat) (x : Lease) (hx : s.lease? lease = some x)
    (h : ¬ Clock.Representable (s.now + x.span.nanos)) : Overruns s (.keepAlive lease)

theorem answer_ne_crash {α : Type} {r : Result α} : Outcome.answer r ≠ .crash := by
  rintro ⟨⟩

def Action.IsRequest : Action → Prop
  | .pass _ | .sweep _ => False
  | _ => True

/-- The caller is lost, and with it the store; all that it holds stays as it is. -/
theorem act_of_overruns (hb : s.broken = false) (h : s.Overruns a) :
    (s.act a).2 = .crash ∧ ∃ granted, s.step a = { s with granted, broken := true } := by
  cases h with
  | grant span hpos h =>
    have hgrant : s.grant span = ({ s with granted := s.granted + 1, broken := true }, .crash) := by
      simp only [grant, hpos, hb, Clock.later?, if_neg h, Bool.false_eq_true, ↓reduceIte]
    rw [step, act, hgrant]
    exact ⟨rfl, _, rfl⟩
  | keepAlive lease x hx h =>
    have hkeep : s.keepAlive lease = ({ s with broken := true }, .crash) := by
      simp only [keepAlive, hb, hx, Clock.later?, if_neg h, Bool.false_eq_true, ↓reduceIte]
    rw [step, act, hkeep]
    exact ⟨rfl, s.granted, rfl⟩

/-- Whoever is not lost leaves the store as usable as it was. -/
theorem overruns_of_broken_step (hb : s.broken = false) (hb' : (s.step a).broken = true) :
    s.Overruns a := by
  obtain ⟨span, hcase, hnot⟩ := broken_step hb hb'
  obtain rfl | ⟨l, x, rfl, hx, rfl⟩ := hcase
  · refine .grant span ?_ hnot
    -- a span of zero is refused before its end is looked for
    by_contra hzero
    have hsame : s.step (.grant span) = s := by rw [step, act, grant, if_pos (by simpa using hzero)]
    rw [hsame, hb] at hb'
    cases hb'
  · exact .keepAlive l x hx hnot

/-- A store breaks just when somebody has it begin a span that ends when no clock can hold it. -/
theorem broken_step_iff : (s.step a).broken = true ↔ s.broken = true ∨ s.Overruns a := by
  cases hb : s.broken with
  | true =>
    refine iff_of_true ?_ (.inl rfl)
    -- nothing mends a broken store
    by_contra hb'
    rw [broken_acting (acting s a) (eq_false_of_ne_true hb')] at hb
    cases hb
  | false =>
    constructor
    · exact fun hb' => .inr (overruns_of_broken_step hb hb')
    · rintro (h | h)
      · cases h
      · obtain ⟨-, _, hstep⟩ := act_of_overruns hb h
        exact congrArg broken hstep

/-- Whoever does so has no answer. -/
theorem crash_iff : (s.act a).2 = .crash ↔ s.broken = false ∧ s.Overruns a := by
  constructor
  · intro hcrash
    have ha := acting s a
    rw [hcrash] at ha
    have hb' : (s.step a).broken = true := by
      generalize s.step a = t at ha ⊢
      cases ha
      rfl
    have hb : s.broken = false := by
      by_contra hb
      -- a broken store answers everything
      cases a with
      | grant span =>
        simp only [act, grant, eq_true_of_ne_false hb, ↓reduceIte] at hcrash
        split at hcrash
        · cases hcrash
        · cases hcrash
      | keepAlive lease =>
        simp only [act, keepAlive, eq_true_of_ne_false hb, ↓reduceIte] at hcrash
        cases hcrash
      | _ => cases hcrash
    exact ⟨hb, overruns_of_broken_step hb hb'⟩
  · exact fun h => (act_of_overruns h.1 h.2).1

/-! A broken store -/

/-- A broken store refuses everything, and stays as it is. -/
theorem act_of_broken (hb : s.broken = true) (ha : a.IsRequest) :
    ∃ e, s.act a = (s, .answer (.error e)) := by
  cases a with
  | pass span => exact ha.elim
  | sweep first => exact ha.elim
  | grant span =>
    rw [act, grant, if_pos hb]
    split
    · exact ⟨_, rfl⟩
    · exact ⟨_, rfl⟩
  | keepAlive lease =>
    rw [act, keepAlive, if_pos hb]
    exact ⟨_, rfl⟩
  | revoke lease =>
    rw [act, revoke, if_pos hb]
    exact ⟨_, rfl⟩
  | put key value lease =>
    rw [act, put, if_pos hb]
    exact ⟨_, rfl⟩
  | delete key =>
    rw [act, delete, if_pos hb]
    exact ⟨_, rfl⟩

/-- Nothing but time goes on in a broken store: not even its leases end. -/
theorem run_of_broken (hb : s.broken = true) (actions : List Action) :
    ∃ now, s.run actions = { s with now } := by
  induction actions generalizing s with
  | nil => exact ⟨s.now, rfl⟩
  | cons a rest ih =>
    have hstep : ∃ now, s.step a = { s with now } := by
      by_cases ha : a.IsRequest
      · obtain ⟨e, hact⟩ := act_of_broken hb ha
        exact ⟨s.now, congrArg Prod.fst hact⟩
      · cases a with
        | pass span => exact ⟨_, rfl⟩
        | sweep first => exact ⟨s.now, if_pos hb⟩
        | _ => exact absurd trivial ha
    obtain ⟨n, hn⟩ := hstep
    obtain ⟨m, hm⟩ := ih (s := s.step a) (hn ▸ hb)
    refine ⟨m, hm.trans ?_⟩
    rw [hn]

theorem scan_of_broken (hb : s.broken = true) {start : String} :
    s.scan start = .error brokenError := if_pos hb

end Store

namespace LeasedRegistry
variable {s : Store} {span : Duration}

/-- Beginning a session asks for a lease, unless it would be too short. -/
theorem establish_eq (s : Store) (span : Duration) :
    (span.nanos < minSpan.nanos ∧ ∃ e, establish s span = (s, .answer (.error e))) ∨
    (¬ span.nanos < minSpan.nanos ∧ (establish s span).1 = s.step (.grant span) ∧
      ((establish s span).2 = .crash ↔ (s.act (.grant span)).2 = .crash) ∧
      ∀ e, (establish s span).2 = .answer (.error e) →
      (s.act (.grant span)).2 = .answer (.error e)) := by
  rw [establish]
  split
  · rename_i hmin
    exact .inl ⟨hmin, _, rfl⟩
  rename_i hmin
  refine .inr ⟨hmin, ?_⟩
  rw [Store.step, Store.act]
  split
  · rename_i hgrant
    rw [hgrant]
    exact ⟨rfl, iff_of_false Store.answer_ne_crash Store.answer_ne_crash, fun e he => by cases he⟩
  · rename_i hgrant
    rw [hgrant]
    refine ⟨rfl, iff_of_false Store.answer_ne_crash Store.answer_ne_crash, fun e he => ?_⟩
    cases he
    rfl
  · rename_i hgrant
    rw [hgrant]
    exact ⟨rfl, iff_of_true rfl rfl, fun e he => by cases he⟩

theorem establish_crash_iff : (establish s span).2 = .crash ↔
    s.broken = false ∧ minSpan.nanos ≤ span.nanos ∧ s.Overruns (.grant span) := by
  obtain ⟨hmin, e, h⟩ | ⟨hmin, -, hcrash, -⟩ := establish_eq s span
  · rw [h]
    exact iff_of_false Store.answer_ne_crash fun h => absurd h.2.1 (Nat.not_le_of_lt hmin)
  · rw [hcrash, Store.crash_iff]
    exact and_congr_right fun _ => (and_iff_right (Nat.not_lt.mp hmin)).symm

theorem establish_of_error {e : Error} (h : (establish s span).2 = .answer (.error e)) :
    (establish s span).1 = s := by
  obtain ⟨-, e, heq⟩ | ⟨-, hstep, -, herror⟩ := establish_eq s span
  · rw [heq]
  · rw [hstep]
    exact Store.eq_of_error (herror e h ▸ Store.acting s (.grant span))

end LeasedRegistry

namespace SharedStore
variable {s : SharedStore} {a : Action} {actions : List Action}

def Overruns (s : SharedStore) (a : Action) : Prop :=
  ∃ request, s.request? a = some request ∧ s.store.Overruns request

theorem broken_step_iff : (s.step a).store.broken = true ↔
    s.store.broken = true ∨ s.Overruns a := by
  rw [store_step, Overruns]
  cases s.request? a with
  | none => simp
  | some request => simp [Store.broken_step_iff]

/-- A store is broken once an action has overrun. -/
theorem broken_run_iff : (s.run actions).store.broken = true ↔ s.store.broken = true ∨
    ∃ before a after, actions = before ++ a :: after ∧ (s.run before).Overruns a := by
  induction actions generalizing s with
  | nil =>
    refine ⟨.inl, Or.rec id ?_⟩
    rintro ⟨before, a, after, h, -⟩
    exact absurd h.symm (List.append_ne_nil_of_right_ne_nil _ (List.cons_ne_nil _ _))
  | cons a rest ih =>
    rw [run_cons, ih, broken_step_iff, or_assoc]
    refine or_congr_right ⟨?_, ?_⟩
    · rintro (h | ⟨before, b, after, rfl, h⟩)
      · exact ⟨[], a, rest, rfl, h⟩
      · exact ⟨a :: before, b, after, rfl, h⟩
    · rintro ⟨before, b, after, heq, h⟩
      cases before with
      | nil =>
        obtain ⟨rfl, rfl⟩ := List.cons.inj heq
        exact .inl h
      | cons c before =>
        obtain ⟨rfl, rfl⟩ := List.cons.inj heq
        exact .inr ⟨before, b, after, rfl, h⟩

/-- How requests to a store end. -/
structure Withstands (s : Store) : Prop where
  /-- A caller is lost exactly if it overruns; whatever it was, all that is stored stays. -/
  crashes : ∀ a, (s.act a).2 = .crash ↔ s.broken = false ∧ s.Overruns a
  crashed : ∀ a, (s.act a).2 = .crash → ∃ granted, s.step a = { s with granted, broken := true }
  refused : ∀ a e, (s.act a).2 = .answer (.error e) → s.step a = s
  /-- The same holds of sessions. -/
  establish_crashes : ∀ span, (LeasedRegistry.establish s span).2 = .crash ↔
    s.broken = false ∧ LeasedRegistry.minSpan.nanos ≤ span.nanos ∧ s.Overruns (.grant span)
  establish_refused : ∀ span e, (LeasedRegistry.establish s span).2 = .answer (.error e) →
    (LeasedRegistry.establish s span).1 = s
  /-- Once it is broken, it refuses everything for good. -/
  broken : s.broken = true → ∀ later, (∃ now, s.run later = { s with now }) ∧
    (∀ text, (s.run later).scan text = .error Store.brokenError) ∧
    ∀ a : Store.Action, a.IsRequest → ∃ e, (s.run later).act a = (s.run later, .answer (.error e))

theorem withstands (s : Store) : Withstands s where
  crashes _ := Store.crash_iff
  crashed _ h := by
    obtain ⟨hb, ho⟩ := Store.crash_iff.mp h
    exact (Store.act_of_overruns hb ho).2
  refused a _ h := Store.eq_of_error (h ▸ Store.acting s a)
  establish_crashes _ := LeasedRegistry.establish_crash_iff
  establish_refused _ _ := LeasedRegistry.establish_of_error
  broken hb later := by
    obtain ⟨now, hrun⟩ := Store.run_of_broken hb later
    have hlater : (s.run later).broken = true := hrun ▸ hb
    exact ⟨⟨now, hrun⟩, fun _ => Store.scan_of_broken hlater, fun _ => Store.act_of_broken hlater⟩

/-- At any time, after whatever was done: a request to a store is answered, and an error leaves
everything as it is, unless it begins a span that ends when no clock can hold it. The store is
usable as long as nobody has done that, so it is if clocks can hold when all leases end that were
granted. -/
theorem withstands_run (start : Int) (actions : List Action) :
    let s := (new start).run actions
    Withstands s.store ∧
    (s.store.broken = true ↔
      ∃ before a after, actions = before ++ a :: after ∧ ((new start).run before).Overruns a) ∧
    (-Clock.limit ≤ start →
      (∀ span, .grant span ∈ (new start).requests actions →
        s.store.now + span.nanos < Clock.limit) →
      s.store.broken = false) := by
  intro s
  refine ⟨withstands _, broken_run_iff.trans (or_iff_right Bool.false_ne_true),
    fun hstart hlimit => ?_⟩
  have hrun : s.store = (Store.new start).run ((new start).requests actions) := store_run
  rw [hrun] at hlimit ⊢
  exact Store.broken_run hstart hlimit

/-- A lease of the longest span is asked for, or a session of it; or a lease that a clock can just
hold the end of is granted at 0 and renewed a second later. Each time the caller is lost, and what
was stored before can not be asked for. -/
example :
    let s := (new 0).run [.put "k" "v" none]
    let long : Duration := .ofSecs 9223372036854775807
    s.store.broken = false ∧ s.store.scan "k" = .ok [("k", "v")] ∧
    (s.store.act (.grant .max)).2 = .crash ∧
    (s.step (.grant .max)).store.scan "k" = .error Store.brokenError ∧
    (LeasedRegistry.establish s.store .max).2 = .crash ∧
    (s.step (.establish .max)).store.scan "k" = .error Store.brokenError ∧
    s.store.grants [.grant long] = [1] ∧
    ((s.run [.grant long, .pass 1000000000]).store.act (.keepAlive 1)).2 = .crash ∧
    (s.run [.grant long, .pass 1000000000, .keepAlive 1]).store.scan "k" =
      .error Store.brokenError := by
  intro s long
  have hlease : (s.run [.grant long, .pass 1000000000]).store.lease? 1 = some
      ⟨long, long.nanos⟩ := by
    decide +kernel
  have hcrash : ((s.run [.grant long, .pass 1000000000]).store.act (.keepAlive 1)).2 = .crash :=
    Store.crash_iff.mpr ⟨by decide +kernel, .keepAlive 1 _ hlease (by decide +kernel)⟩
  exact ⟨rfl, by decide +kernel, rfl, rfl, rfl, rfl, by decide +kernel, hcrash, by decide +kernel⟩

end SharedStore
end RemoteCall
