import RemoteCall.Proofs.Message.Request
import RemoteCall.Proofs.Text.Split

/-! What the receiver of a call makes of the caller's context.

Marks, group and metadata arrive as they were. A deadline is sent as a time of the wall clock in
whole milliseconds, so that what arrives is never later than what was meant, and less than a
millisecond earlier. -/
namespace RemoteCall

namespace Request
variable {n : Nat} {m : Metadata}

theorem isDigit_of_mem_toString {c : Char} (h : c ∈ (toString n).toList) : c.isDigit = true :=
  Nat.isDigit_of_mem_toDigits (by decide) (by decide) (Nat.toList_repr ▸ h)

/-- A number is read back from its digits, unless it takes more than 64 bits. -/
theorem decimal64?_toString :
    decimal64? (toString n) = if n < UInt64.size then some n else none := by
  have hdigits : (toString n).toList = Nat.toDigits 10 n := Nat.toList_repr
  have hall : (toString n).toList.all Char.isDigit = true :=
    List.all_eq_true.mpr fun c hc => isDigit_of_mem_toString hc
  have hne : (toString n).toList ≠ [] := hdigits ▸ Nat.toDigits_ne_nil
  have hvalue : (toString n).toList.foldl (fun n c => n * 10 + (c.toNat - '0'.toNat)) 0 = n := by
    have hn : Nat.ofDigitChars 10 (toString n).toList 0 = n :=
      hdigits ▸ Nat.ofDigitChars_ten_toDigits
    rw [Nat.ofDigitChars_eq_foldl] at hn
    simpa only [Nat.mul_comm 10] using hn
  unfold decimal64?
  dsimp only
  split
  · -- no digit is a plus sign
    rename_i rest hplus
    have hd : '+'.isDigit = true := isDigit_of_mem_toString (n := n) (hplus ▸ List.mem_cons_self)
    exact absurd hd (by decide)
  · rw [hall, hvalue, List.isEmpty_eq_false_iff.mpr hne]
    rfl

/-- Digits are no separators. -/
theorem isPlain_toString : IsPlain (toString n) := by
  have hdigit (b : UInt8) (hb : b.toNat < 48) : b ∉ utf8 (toString n) := by
    intro h
    obtain ⟨c, hc, heq⟩ := exists_of_mem_utf8 (Nat.lt_trans hb (by decide)) h
    have hle : 48 ≤ c.toNat := (Char.isDigit_iff_toNat.mp (isDigit_of_mem_toString hc)).1
    omega
  exact ⟨hdigit splitter (by decide), hdigit pairSplitter (by decide)⟩

theorem plainEntries_iff : PlainEntries m.entries ↔
    ∀ key value, m.get? key = some value → IsPlain key ∧ IsPlain value := by
  constructor
  · intro h key value hget
    exact h (key, value) (KeyMap.get?_eq_some.mp hget)
  · intro h e he
    exact h e.1 e.2 (KeyMap.get?_eq_some.mpr he)

theorem plainEntries_overlay {top : Metadata} (hm : PlainEntries m.entries)
    (htop : PlainEntries top.entries) : PlainEntries (m.overlay top).entries := by
  rw [plainEntries_iff] at hm htop ⊢
  intro key value h
  rw [KeyMap.get?_overlay, Option.or_eq_some_iff] at h
  rcases h with h | ⟨-, h⟩
  · exact htop key value h
  · exact hm key value h

theorem plainEntries_elim_insert {key : String} {o : Option String} (hm : PlainEntries m.entries)
    (hkey : IsPlain key) (ho : ∀ v, o = some v → IsPlain v) :
    PlainEntries (o.elim m (m.insert key)).entries := by
  rw [plainEntries_iff] at hm ⊢
  intro k v h
  rw [KeyMap.get?_elim_insert] at h
  split at h
  · rename_i heq
    rw [Option.or_eq_some_iff] at h
    rcases h with h | ⟨-, h⟩
    · exact ⟨heq ▸ hkey, ho v h⟩
    · exact hm k v h
  · exact hm k v h

end Request

namespace Context
open Request
variable {c s : Context} {clock : Clock} {r : Request} {t : Int} {key : String}

def reservedKeys : List String := [deadlineKey, onewayKey, groupKey]

def wallTime (clock : Clock) (t : Int) : Int := clock.wall + (t - clock.mono)

/-- The milliseconds that are sent for a deadline. One that has passed is sent as the present time.
-/
def sentMillis (clock : Clock) (t : Int) : Nat :=
  (max clock.wall (wallTime clock t)).toNat / 1000000

/-- The first time after the epoch whose milliseconds take more than 64 bits. -/
def sendLimit : Int := 18446744073709551616 * 1000000

/-- Both clocks can be read, the wall clock not before the epoch, and the deadline falls on a time
of both. No text of the header holds a separator, and none of the given entries stands for something
else. -/
structure Sendable (c : Context) (clock : Clock) (r : Request) : Prop where
  service : IsPlain r.service
  method : IsPlain r.method
  entries : PlainEntries r.metadata.entries
  contextEntries : PlainEntries c.metadata.entries
  group : ∀ g, c.group = some g → IsPlain g
  notReserved : ∀ key ∈ reservedKeys, r.metadata.get? key = none ∧ c.metadata.get? key = none
  mono : Clock.Representable clock.mono
  wall : Clock.Representable clock.wall
  epoch : 0 ≤ clock.wall
  deadline : ∀ t, c.deadline = some t → Clock.Representable t ∧
    Clock.Representable (wallTime clock t)

def carried (c : Context) (clock : Clock) (m : Metadata) : Metadata :=
  let m := m.overlay c.metadata
  let m := (if c.oneway then some "true" else none).elim m (m.insert onewayKey)
  let m := c.group.elim m (m.insert groupKey)
  (c.deadline.map fun t => toString (sentMillis clock t)).elim m (m.insert deadlineKey)

def outgoing (c : Context) (clock : Clock) (r : Request) : Request :=
  { r with metadata := c.carried clock r.metadata }.withLengths

/-- The time of the deadline, as it is found when the request is made. -/
theorem later?_span (h : c.Sendable clock r) (ht : c.deadline = some t) :
    Clock.later? clock.wall (Clock.spanUntil clock.mono t) =
      some (max clock.wall (wallTime clock t)) := by
  obtain ⟨-, htime⟩ := h.deadline t ht
  have hsum : clock.wall + (Clock.spanUntil clock.mono t : Int) = max clock.wall
      (wallTime clock t) := by
    rw [Clock.spanUntil, wallTime]
    omega
  have hrep : Clock.Representable (max clock.wall (wallTime clock t)) := by
    rcases max_choice clock.wall (wallTime clock t) with hmax | hmax
    · rw [hmax]
      exact h.wall
    · rw [hmax]
      exact htime
  rw [Clock.later?, hsum]
  exact if_pos hrep

/-- A context that can be sent puts its marks, its group and its deadline on the request, over all
others. -/
theorem applyTo_eq (h : c.Sendable clock r) : c.applyTo clock r = some (c.outgoing clock r) := by
  have honeway (m : Metadata) : (if c.oneway then m.insert onewayKey "true" else m) =
      (if c.oneway then some "true" else none).elim m (m.insert onewayKey) := by
    cases c.oneway with
    | false => rfl
    | true => rfl
  unfold applyTo outgoing carried
  simp only [honeway]
  cases hg : c.group with
  | none =>
    cases hd : c.deadline with
    | none => rfl
    | some t =>
      dsimp only
      rw [later?_span h hd]
      rfl
  | some g =>
    cases hd : c.deadline with
    | none => rfl
    | some t =>
      dsimp only
      rw [later?_span h hd]
      rfl

theorem carried_oneway (h : c.Sendable clock r) :
    (c.carried clock r.metadata).get? onewayKey = if c.oneway then some "true" else none := by
  obtain ⟨hr, hc⟩ := h.notReserved onewayKey (by decide)
  simp only [carried, KeyMap.get?_elim_insert, KeyMap.get?_overlay, hr, hc]
  cases c.oneway with
  | false => rfl
  | true => rfl

theorem carried_group (h : c.Sendable clock r) :
    (c.carried clock r.metadata).get? groupKey = c.group := by
  obtain ⟨hr, hc⟩ := h.notReserved groupKey (by decide)
  simp only [carried, KeyMap.get?_elim_insert, KeyMap.get?_overlay, hr, hc]
  cases c.group with
  | none => rfl
  | some g => rfl

theorem carried_deadline (h : c.Sendable clock r) :
    (c.carried clock r.metadata).get? deadlineKey =
      c.deadline.map fun t => toString (sentMillis clock t) := by
  obtain ⟨hr, hc⟩ := h.notReserved deadlineKey (by decide)
  simp only [carried, KeyMap.get?_elim_insert, KeyMap.get?_overlay, hr, hc]
  cases c.deadline with
  | none => rfl
  | some t => rfl

/-- An entry without a meaning of its own is that of the context, or else that of the request. -/
theorem carried_own (hkey : key ∉ reservedKeys) : (c.carried clock r.metadata).get? key =
    (c.metadata.get? key).or (r.metadata.get? key) := by
  have hne : ∀ k ∈ reservedKeys, k ≠ key := fun k hk he => hkey (he ▸ hk)
  simp only [carried, KeyMap.get?_elim_insert, KeyMap.get?_overlay,
    if_neg (hne deadlineKey (by decide)), if_neg (hne groupKey (by decide)),
    if_neg (hne onewayKey (by decide))]

/-- A request that is sent so can be written. -/
theorem isWritable_outgoing (h : c.Sendable clock r) : (c.outgoing clock r).IsWritable := by
  refine ⟨h.service, h.method, ?_⟩
  have hmark : ∀ v, (if c.oneway then some "true" else none) = some v → IsPlain v := by
    intro v hv
    split at hv
    · cases hv
      unfold IsPlain
      decide +kernel
    · cases hv
  have hdeadline : ∀ v, (c.deadline.map fun t => toString (sentMillis clock t)) = some v →
      IsPlain v := by
    intro v hv
    obtain ⟨t, -, rfl⟩ := Option.map_eq_some_iff.mp hv
    exact isPlain_toString
  -- one entry after the other, over those that were given
  apply plainEntries_elim_insert _ (by unfold IsPlain; decide +kernel) hdeadline
  apply plainEntries_elim_insert _ (by unfold IsPlain; decide +kernel) h.group
  apply plainEntries_elim_insert _ (by unfold IsPlain; decide +kernel) hmark
  exact plainEntries_overlay h.entries h.contextEntries

/-- What the receiver makes of the context of a call, at the time of sending. A deadline that has
passed is sent as the present time. -/
structure Arrives (c : Context) (clock : Clock) (r : Request) (s : Context) : Prop where
  oneway : s.oneway = c.oneway
  group : s.group = c.group
  own : ∀ key, key ∉ reservedKeys →
    s.metadata.get? key = (c.metadata.get? key).or (r.metadata.get? key)
  onewayEntry : s.metadata.get? onewayKey = if c.oneway then some "true" else none
  groupEntry : s.metadata.get? groupKey = c.group
  deadlineEntry : s.metadata.get? deadlineKey = c.deadline.map fun t =>
    toString (sentMillis clock t)
  unlimited : c.deadline = none → s.deadline = none
  far : ∀ t, c.deadline = some t → sendLimit ≤ wallTime clock t → s.deadline = none
  ahead : ∀ t, c.deadline = some t → wallTime clock t < sendLimit → clock.mono < t →
    ∃ d, s.deadline = some d ∧ d ≤ t ∧ t - d < 1000000
  passed : ∀ t, c.deadline = some t → t ≤ clock.mono →
    if clock.wall < sendLimit then s.isExpired clock.mono = true else s.deadline = none

def received (clock : Clock) (t : Int) : Int :=
  clock.mono + (Clock.spanUntil clock.wall (sentMillis clock t * 1000000) : Nat)

theorem sentMillis_lt : sentMillis clock t < UInt64.size ↔
    max clock.wall (wallTime clock t) < sendLimit := by
  simp only [sentMillis, sendLimit, UInt64.size]
  omega

theorem received_of_le (he : 0 ≤ clock.wall) (ht : t ≤ clock.mono) :
    received clock t = clock.mono := by
  simp only [received, sentMillis, wallTime, Clock.spanUntil]
  omega

/-- Going to whole milliseconds of the wall clock and back loses less than a millisecond. -/
theorem received_of_lt (he : 0 ≤ clock.wall) (ht : clock.mono < t) :
    received clock t ≤ t ∧ t - received clock t < 1000000 := by
  simp only [received, sentMillis, wallTime, Clock.spanUntil]
  omega

theorem representable_received (h : c.Sendable clock r) (ht : c.deadline = some t) :
    Clock.Representable (received clock t) := by
  obtain ⟨⟨-, hlt⟩, -⟩ := h.deadline t ht
  obtain ⟨hmono, hmono'⟩ := h.mono
  have hle : clock.mono ≤ received clock t := Int.le_add_of_nonneg_right (Int.natCast_nonneg _)
  refine ⟨Int.le_trans hmono hle, ?_⟩
  -- what is received is no later than the deadline or the present
  rcases Int.lt_or_le clock.mono t with hahead | hpassed
  · exact Int.lt_of_le_of_lt (received_of_lt h.epoch hahead).1 hlt
  · rw [received_of_le h.epoch hpassed]
    exact hmono'

/-- The deadline arrives, unless its milliseconds take more than 64 bits. -/
theorem deadline_ofRequest (h : c.Sendable clock r) {arrived : Request} (scope : Nat)
    (hm : arrived.metadata = c.carried clock r.metadata) :
    (ofRequest arrived clock scope).deadline = c.deadline.bind fun t =>
      if max clock.wall (wallTime clock t) < sendLimit then some (received clock t) else none := by
  have hmillis : arrived.deadlineMillis = c.deadline.bind fun t =>
      if max clock.wall (wallTime clock t) < sendLimit then some
        (sentMillis clock t) else none := by
    unfold deadlineMillis
    rw [hm, carried_deadline h]
    cases c.deadline with
    | none => rfl
    | some t =>
      simp only [← sentMillis_lt]
      exact decimal64?_toString
  unfold ofRequest
  dsimp only
  rw [hmillis]
  cases hd : c.deadline with
  | none => rfl
  | some t =>
    rw [Option.bind_some, Option.bind_some]
    split
    · exact if_pos (representable_received h hd)
    · rfl

/-- What the receiver makes of the request is the context that was sent. -/
theorem arrives (h : c.Sendable clock r) {arrived : Request} (scope : Nat)
    (hm : arrived.metadata = c.carried clock r.metadata) :
    c.Arrives clock r (ofRequest arrived clock scope) := by
  have hdeadline := deadline_ofRequest h scope hm
  have hmetadata : (ofRequest arrived clock scope).metadata = c.carried clock r.metadata := hm
  constructor
  case oneway =>
    change (arrived.metadata.get? onewayKey == some "true") = c.oneway
    rw [hm, carried_oneway h]
    cases c.oneway with
    | false => rfl
    | true => rfl
  case group =>
    change arrived.metadata.get? groupKey = c.group
    rw [hm, carried_group h]
  case own =>
    intro key hkey
    rw [hmetadata, carried_own hkey]
  case onewayEntry => rw [hmetadata, carried_oneway h]
  case groupEntry => rw [hmetadata, carried_group h]
  case deadlineEntry => rw [hmetadata, carried_deadline h]
  case unlimited =>
    intro hnone
    rw [hdeadline, hnone]
    rfl
  case far =>
    intro t ht hfar
    rw [hdeadline, ht, Option.bind_some, if_neg]
    exact Int.not_lt.mpr (Int.le_trans hfar (Int.le_max_right _ _))
  case ahead =>
    intro t ht hnear hahead
    have hwall : clock.wall ≤ wallTime clock t := by
      rw [wallTime]
      omega
    refine ⟨received clock t, ?_, received_of_lt h.epoch hahead⟩
    rw [hdeadline, ht, Option.bind_some, Int.max_eq_right hwall, if_pos hnear]
  case passed =>
    intro t ht hpassed
    have hwall : wallTime clock t ≤ clock.wall := by
      rw [wallTime]
      omega
    rw [ht, Option.bind_some, Int.max_eq_left hwall, received_of_le h.epoch hpassed] at hdeadline
    split
    · rename_i hnear
      rw [if_pos hnear] at hdeadline
      rw [isExpired, hdeadline]
      exact decide_eq_true (Int.le_refl _)
    · rename_i hlate
      rw [hdeadline, if_neg hlate]

/-- A context survives the wire. The request is written unless it is too long, and what is read of
it, at the same time, gives a context with the same marks, group and metadata. Its deadline, when it
comes before the limit of what can be sent, is not later than the caller's and less than a
millisecond earlier, or has passed like the caller's; a later one is no deadline, and none comes of
none. -/
theorem context_survives_wire (c : Context) (clock : Clock) (r : Request) (scope : Nat)
    (h : c.Sendable clock r) :
    c.applyTo clock r = some (c.outgoing clock r) ∧
    ((∃ bs, (c.outgoing clock r).encode = .ok bs) ↔
      (c.outgoing clock r).headerSize < UInt32.size ∧ r.data.size < UInt32.size) ∧
    ∀ bs, (c.outgoing clock r).encode = .ok bs → ∃ arrived, Request.decode bs = .ok arrived ∧
      c.Arrives clock r (ofRequest arrived clock scope) := by
  have hwritable := isWritable_outgoing h
  refine ⟨applyTo_eq h, ⟨?_, ?_⟩, ?_⟩
  · rintro ⟨bs, hbs⟩
    obtain ⟨-, hhead, hdata, -⟩ := encode_eq_ok.mp hbs
    exact ⟨hhead, hdata⟩
  · rintro ⟨hhead, hdata⟩
    exact ⟨_, encode_eq_ok.mpr ⟨hwritable, hhead, hdata, rfl⟩⟩
  · intro bs hbs
    obtain ⟨-, hhead, hdata, rfl⟩ := encode_eq_ok.mp hbs
    exact ⟨_, decode_bytes hwritable hhead hdata, arrives h scope rfl⟩

/-- A call to a group, with an entry of its own in place of one of the request, and a deadline two
seconds ahead that is no whole millisecond of the wall clock. -/
theorem context_survives_wire_ahead :
    let clock : Clock := ⟨5, 1700000000123456789⟩
    let c : Context :=
      { deadline := some 2000000005, metadata := .ofList [("trace", "7")], group := some "canary" }
    let r := (Request.new "S" "m").withMetadata "trace" "0" |>.withMetadata "user" "u"
    c.Sendable clock r ∧ ∃ bs arrived, (c.outgoing clock r).encode = .ok bs ∧
      Request.decode bs = .ok arrived ∧ (ofRequest arrived clock 0).group = some "canary" ∧
      (ofRequest arrived clock 0).metadata.get? "trace" = some "7" ∧
      (ofRequest arrived clock 0).metadata.get? "user" = some "u" ∧
      ∃ d, (ofRequest arrived clock 0).deadline = some d ∧ d ≤ 2000000005 ∧
      2000000005 - d < 1000000 := by
  intro clock c r
  have h : c.Sendable clock r := by
    refine ⟨?_, ?_, ?_, ?_, fun g hg => ?_, by decide +kernel, by decide, by decide, by decide,
      fun t ht => ?_⟩
    · unfold IsPlain
      decide +kernel
    · unfold IsPlain
      decide +kernel
    · unfold PlainEntries IsPlain
      decide +kernel
    · unfold PlainEntries IsPlain
      decide +kernel
    · obtain rfl : "canary" = g := Option.some.inj hg
      unfold IsPlain
      decide +kernel
    · obtain rfl : 2000000005 = t := Option.some.inj ht
      decide
  obtain ⟨-, hwritten, hread⟩ := context_survives_wire c clock r 0 h
  obtain ⟨bs, hbs⟩ := hwritten.mpr (by decide +kernel)
  obtain ⟨arrived, hdecode, hs⟩ := hread bs hbs
  refine ⟨h, bs, arrived, hbs, hdecode, hs.group, ?_, ?_, hs.ahead _ rfl (by decide) (by decide)⟩
  · exact (hs.own "trace" (by decide)).trans (by decide +kernel)
  · exact (hs.own "user" (by decide)).trans (by decide +kernel)

end Context
end RemoteCall
