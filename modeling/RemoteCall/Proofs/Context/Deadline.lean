import RemoteCall.Proofs.Context.Wire

/-! Which deadlines a call can carry.

However often a deadline is shortened, the earliest one counts, and a timeout that leads past the
monotonic clock counts for nothing. The request needs it as a time of the wall clock, which may be
ahead: a deadline that has no place there is not left out but leaves the call without a request. -/
namespace RemoteCall.Context
variable {c : Context} {clock : Clock} {r : Request} {t u : Int}

/-- What a caller does to the deadline of a context, or to a context that is made of it. -/
inductive Shaping where
  /-- A timeout that begins at a time of the monotonic clock. -/
  | timeout (now : Int) (span : Duration)
  | deadline (t : Int)
  | child (scope : Nat)
deriving DecidableEq

def Shaping.end? : Shaping → Option Int
  | .timeout now span => Clock.later? now span.nanos
  | .deadline t => some t
  | .child _ => none

def shape (c : Context) : Shaping → Context
  | .timeout now span => c.withTimeout now span
  | .deadline t => c.withDeadline t
  | .child scope => { c with scope }

def shapeAll (c : Context) (steps : List Shaping) : Context := steps.foldl shape c

def ends (c : Context) (steps : List Shaping) : List Int :=
  c.deadline.toList ++ steps.filterMap Shaping.end?

def Fits (clock : Clock) (t : Int) : Prop :=
  Clock.Representable (clock.wall + Clock.spanUntil clock.mono t)

theorem deadline_withDeadline : (c.withDeadline t).deadline = (c.deadline.toList ++ [t]).min? := by
  unfold withDeadline
  cases c.deadline with
  | none => rfl
  | some d =>
    change some (if d < t then d else t) = some (min d t)
    rw [Option.some.injEq]
    omega

/-- The deadline is the earliest that was asked for. -/
theorem deadline_shape (s : Shaping) : (c.shape s).deadline = (c.ends [s]).min? := by
  have hkeep : (c.deadline.toList ++ []).min? = c.deadline := by
    cases c.deadline with
    | none => rfl
    | some d => rfl
  cases s with
  | timeout now span =>
    rw [shape, withTimeout, ends, List.filterMap_cons, Shaping.end?]
    cases Clock.later? now span.nanos with
    | none => exact hkeep.symm
    | some t => exact deadline_withDeadline
  | deadline t => exact deadline_withDeadline
  | child scope => exact hkeep.symm

/-- The least of some numbers stands for all of them. -/
theorem min?_append (xs ys : List Int) : (xs.min?.toList ++ ys).min? = (xs ++ ys).min? := by
  cases xs with
  | nil => rfl
  | cons x xs =>
    change some (ys.foldl min (xs.foldl min x)) = some ((xs ++ ys).foldl min x)
    rw [List.foldl_append]

/-- The earliest end is the deadline. -/
theorem deadline_shapeAll (steps : List Shaping) :
    (c.shapeAll steps).deadline = (c.ends steps).min? := by
  induction steps generalizing c with
  | nil =>
    rw [shapeAll, List.foldl_nil, ends, List.filterMap_nil]
    cases c.deadline with
    | none => rfl
    | some d => rfl
  | cons s rest ih =>
    have hends : c.ends (s :: rest) = c.ends [s] ++ rest.filterMap Shaping.end? := by
      rw [ends, ends, List.append_assoc, ← List.filterMap_append]
      rfl
    -- the deadline after the first step is the least end so far, and stands for those ends from
    -- there on
    rw [hends, ← min?_append, ← deadline_shape]
    exact ih

/-- A request can be made unless the wall clock cannot hold the time of its deadline. -/
theorem isSome_applyTo : (c.applyTo clock r).isSome = true ↔
    ∀ t, c.deadline = some t → Fits clock t := by
  unfold applyTo
  cases c.deadline with
  | none => simp
  | some t =>
    simp only [Option.isSome_map, Option.some.injEq, forall_eq', Fits, Clock.later?]
    split
    · simpa
    · simpa

/-- If a deadline fits, then so does an earlier one. -/
theorem Fits.of_le (h : Fits clock u) (hle : t ≤ u) (hwall : Clock.Representable clock.wall) :
    Fits clock t := by
  obtain ⟨-, hlt⟩ := h
  obtain ⟨hle', -⟩ := hwall
  unfold Fits Clock.Representable
  simp only [Clock.spanUntil] at hlt ⊢
  omega

theorem fits_of_representable (hwall : Clock.Representable clock.wall)
    (h : Clock.Representable (wallTime clock t)) : Fits clock t := by
  unfold Fits Clock.Representable at *
  simp only [Clock.spanUntil, wallTime] at h ⊢
  omega

/-- A wall clock that is not ahead of the other one can hold every deadline. -/
theorem fits_of_behind (hwall : Clock.Representable clock.wall) (hle : clock.wall ≤ clock.mono)
    (h : Clock.Representable t) : Fits clock t := by
  unfold Fits Clock.Representable at *
  simp only [Clock.spanUntil]
  omega

/-- A timeout has its place on the wall clock if that does not end before it. -/
theorem fits_of_timeout {now : Int} {span : Duration} (hwall : Clock.Representable clock.wall)
    (hnow : now ≤ clock.mono) (hlt : clock.wall + span.nanos < Clock.limit)
    (hend : (Shaping.timeout now span).end? = some t) : Fits clock t := by
  have ht : t = now + span.nanos := Clock.eq_of_later? hend
  obtain ⟨hlow, hhigh⟩ := hwall
  unfold Fits Clock.Representable
  simp only [Clock.spanUntil]
  omega

/-- What becomes of the deadline of a call whose context was shaped step by step. -/
structure Bounds (c : Context) (steps : List Shaping) (clock : Clock) (r : Request) : Prop where
  /-- The earliest end is the deadline, and a timeout without an end makes no difference. -/
  deadline : (c.shapeAll steps).deadline = (c.ends steps).min?
  /-- There is a request to send exactly if nothing bounds the call or one of its ends fits. -/
  sent : ((c.shapeAll steps).applyTo clock r).isSome = true ↔
    c.ends steps = [] ∨ ∃ t ∈ c.ends steps, Fits clock t
  /-- With all ends on the wall clock there is one. -/
  near : (∀ t ∈ c.ends steps, Clock.Representable (wallTime clock t)) →
    ((c.shapeAll steps).applyTo clock r).isSome = true
  /-- So there is with a wall clock that is not ahead. -/
  behind : clock.wall ≤ clock.mono → (∀ t ∈ c.ends steps, Clock.Representable t) →
    ((c.shapeAll steps).applyTo clock r).isSome = true
  /-- So there is if no timeout leads past the wall clock now and nothing else bounds the call. -/
  timeouts : c.deadline = none →
    (∀ s ∈ steps, s.end?.isSome = true → ∃ now span, s = .timeout now span ∧
      now ≤ clock.mono ∧ clock.wall + span.nanos < Clock.limit) →
    ((c.shapeAll steps).applyTo clock r).isSome = true

/-- Whatever a caller does to the deadline of a context, the earliest end counts. There is a request
to send exactly if nothing bounds the call or one of its ends has a place on the wall clock; so a
deadline that only the monotonic clock can hold leaves the call without a request, while a timeout
that neither clock can hold bounds nothing. -/
theorem bounds (c : Context) (steps : List Shaping) (clock : Clock) (r : Request)
    (hwall : Clock.Representable clock.wall) : c.Bounds steps clock r := by
  have hdeadline := deadline_shapeAll (c := c) steps
  have hsent : ((c.shapeAll steps).applyTo clock r).isSome = true ↔
      c.ends steps = [] ∨ ∃ t ∈ c.ends steps, Fits clock t := by
    rw [isSome_applyTo, hdeadline]
    -- the least end is the one that is sent, and it fits if any other does
    constructor
    · intro h
      cases hmin : (c.ends steps).min? with
      | none => exact .inl (List.min?_eq_none_iff.mp hmin)
      | some t => exact .inr ⟨t, List.min?_mem hmin, h t hmin⟩
    · rintro (hnone | ⟨u, hu, hfits⟩) t hmin
      · rw [hnone] at hmin
        cases hmin
      · exact hfits.of_le ((List.min?_eq_some_iff.mp hmin).2 u hu) hwall
  have hall (h : ∀ t ∈ c.ends steps, Fits clock t) :
      ((c.shapeAll steps).applyTo clock r).isSome = true := by
    refine hsent.mpr ?_
    cases hends : c.ends steps with
    | nil => exact .inl rfl
    | cons t rest => exact .inr ⟨t, List.mem_cons_self, h t (hends ▸ List.mem_cons_self)⟩
  refine ⟨hdeadline, hsent, fun h => hall fun t ht => fits_of_representable hwall (h t ht),
    fun hle h => hall fun t ht => fits_of_behind hwall hle (h t ht), fun hnone h => hall
    fun t ht => ?_⟩
  rw [ends, hnone, Option.toList_none, List.nil_append] at ht
  obtain ⟨s, hs, hend⟩ := List.mem_filterMap.mp ht
  obtain ⟨now, span, rfl, hnow, hlt⟩ := h s hs (Option.isSome_iff_exists.mpr ⟨t, hend⟩)
  exact fits_of_timeout hwall hnow hlt hend

/-- A timeout of some 292 billion years is set, an hour after the start of the monotonic clock, in
the year 2023. The context has a deadline then, and so has what is made of it, but no request comes
of either. -/
example :
    let clock : Clock := ⟨3600000000000, 1700000000000000000⟩
    let far := ({} : Context).withTimeout clock.mono (.ofSecs 9223372036000000000)
    far.deadline = some 9223372036000003600000000000 ∧ far.applyTo clock (.new "S" "m") = none ∧
      { far with scope := 1 }.applyTo clock (.new "S" "m") = none ∧
      -- a timeout that is longer still is no deadline
      (({} : Context).withTimeout clock.mono .max).applyTo clock (.new "S" "m") =
        some (Request.new "S" "m").withLengths := by
  decide +kernel

end RemoteCall.Context
