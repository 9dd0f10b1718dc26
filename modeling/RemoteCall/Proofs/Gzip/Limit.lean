import RemoteCall.Gzip.Container
import RemoteCall.Proofs.Data.Outcome

/-! What the bound on inflated bytes does: a stream that inflates under some bound inflates to the
same bytes under every bound that these bytes keep, and passes all others. -/
namespace RemoteCall.Inflate
variable {α β : Type} {size : α → Nat} {size' : β → Nat} {least : Nat}

/-- A step under a bound begins with so many bytes and never takes any back. The bound decides only
whether its result is yielded. -/
structure Bounded (size : α → Nat) (least : Nat) (step : Nat → Outcome α) : Prop where
  le : ∀ {limit a}, step limit = .ok a → least ≤ size a
  eq : ∀ {limit a}, step limit = .ok a → ∀ l, least ≤ l →
    step l = if size a ≤ l then .ok a else .error .tooLarge

namespace Bounded

theorem error (e : Fault) : Bounded size least fun _ => .error e where
  le := nofun
  eq := nofun

theorem ok {a : α} (h : size a = least) : Bounded size least fun _ => .ok a where
  le he := by
    cases he
    exact Nat.le_of_eq h.symm
  eq he l hl := by
    cases he
    rw [if_pos (h.symm ▸ hl)]

theorem ite {c : Prop} [Decidable c] {step step' : Nat → Outcome α} (h : Bounded size least step)
    (h' : Bounded size least step') : Bounded size least fun l =>
    if c then step l else step' l := by
  by_cases hc : c
  · simpa only [if_pos hc] using h
  · simpa only [if_neg hc] using h'

/-- What is read without a look at the bound leaves the step as it is. -/
theorem read {x : Outcome β} {next : Nat → β → Outcome α} (h : ∀ b, Bounded size least (next · b)) :
    Bounded size least fun l => x >>= next l := by
  cases x with
  | error e => exact .error e
  | ok b => exact h b

/-- One step after the other passes the bound where one of them does. -/
theorem bind {step : Nat → Outcome β} {next : Nat → β → Outcome α} (h : Bounded size' least step)
    (h' : ∀ b, Bounded size (size' b) (next · b)) :
    Bounded size least fun l => step l >>= next l where
  le he := by
    obtain ⟨b, hb, ha⟩ := bind_eq_ok.mp he
    exact Nat.le_trans (h.le hb) ((h' b).le ha)
  eq {limit a} he l hl := by
    obtain ⟨b, hb, ha⟩ := bind_eq_ok.mp he
    have hle := (h' b).le ha
    by_cases hfit : size' b ≤ l
    · have hstep : step l = .ok b := by rw [h.eq hb l hl, if_pos hfit]
      rw [hstep]
      exact (h' b).eq ha l hfit
    · have hstep : step l = .error .tooLarge := by rw [h.eq hb l hl, if_neg hfit]
      rw [hstep, if_neg (by omega)]
      rfl

end Bounded

variable {source out : ByteArray}

theorem bounded_emit (b : UInt8) : Bounded ByteArray.size out.size fun l => emit l out b where
  le {limit a} he := by
    unfold emit at he
    split at he
    · cases he
      rw [ByteArray.size_push]
      omega
    · cases he
  eq {limit a} he l _ := by
    unfold emit at he
    split at he
    · cases he
      rw [emit, ByteArray.size_push]
      rfl
    · cases he

theorem bounded_copy (distance length : Nat) :
    Bounded ByteArray.size out.size fun l => copy l distance length out := by
  induction length generalizing out with
  | zero => exact .ok rfl
  | succ length ih => exact (bounded_emit _).bind fun _ => ih

theorem bounded_codedBytes (literals distances : PrefixCode) (fuel pos : Nat) :
    Bounded (fun x => x.1.size) out.size fun l =>
    codedBytes source l literals distances fuel out pos := by
  induction fuel generalizing out pos with
  | zero => exact .error .corrupt
  | succ fuel ih =>
    simp only [codedBytes]
    refine .read fun ⟨symbol, pos⟩ => .ite ((bounded_emit _).bind fun _ => ih _) (.ite (.ok rfl) ?_)
    refine .read fun ⟨length, pos⟩ => .read fun ⟨symbol, pos⟩ => .read fun ⟨distance, pos⟩ => ?_
    exact .ite ((bounded_copy _ _).bind fun _ => ih _) (.error .corrupt)

theorem bounded_plainBytes (count start : Nat) :
    Bounded (fun x => x.1.size) out.size fun l => plainBytes source l count out start := by
  induction count generalizing out start with
  | zero => exact .ok rfl
  | succ count ih =>
    simp only [plainBytes]
    by_cases h : start < source.size
    · simp only [dif_pos h]
      exact (bounded_emit _).bind fun _ => ih _
    · simp only [dif_neg h]
      exact .error .corrupt

theorem bounded_plainBlock (pos : Nat) :
    Bounded (fun x => x.1.size) out.size fun l => plainBlock source l out pos := by
  refine .read fun ⟨size, pos⟩ => .read fun ⟨turned, pos⟩ => ?_
  exact .ite (bounded_plainBytes _ _) (.error .corrupt)

theorem bounded_block (kind pos : Nat) :
    Bounded (fun x => x.1.size) out.size fun l => block source l kind out pos := by
  unfold block
  split
  · exact bounded_plainBlock pos
  · exact bounded_codedBytes _ _ _ pos
  · exact .read fun _ => bounded_codedBytes _ _ _ _
  · exact .error .corrupt

theorem bounded_blocks (fuel pos : Nat) :
    Bounded (fun x => x.1.size) out.size fun l => blocks source l fuel out pos := by
  induction fuel generalizing out pos with
  | zero => exact .error .corrupt
  | succ fuel ih =>
    simp only [blocks]
    refine .read fun ⟨last, pos⟩ => .read fun ⟨kind, pos⟩ => (bounded_block kind pos).bind
      fun _ => ?_
    exact .ite (.ok rfl) (ih _)

/-- The bound of inflating decides only whether the result is yielded. -/
theorem bounded_inflate (start : Nat) :
    Bounded (fun x => x.1.size) 0 fun l => inflate source l start := by
  have hblocks := @bounded_blocks source .empty (symbolFuel source) (8 * start)
  exact hblocks.bind fun ⟨out, pos⟩ => .ok rfl

end RemoteCall.Inflate

namespace RemoteCall.Gzip
variable {bytes payload : ByteArray}

/-- The bytes are a container of the payload: some bound lets it through. -/
def Holds (bytes payload : ByteArray) : Prop := ∃ limit, decompress limit bytes = .ok payload

/-- Every payload is packed, and into a container of it. -/
class LawfulEncoder [Encoder] : Prop where
  holds (payload : ByteArray) : ∃ packed, Encoder.encode payload = .ok packed ∧ Holds packed payload

/-- So does the bound of unpacking a container. -/
theorem bounded_decompress (bytes : ByteArray) :
    Inflate.Bounded ByteArray.size 0 fun l => decompress l bytes := by
  unfold decompress
  split
  · exact .error .corrupt
  · exact (Inflate.bounded_inflate _).bind fun _ => .ite (.ok rfl) (.error .corrupt)

/-- A container yields its payload under every bound that the payload keeps, and no other. -/
theorem Holds.decompress (h : Holds bytes payload) (limit : Nat) :
    decompress limit bytes = if payload.size ≤ limit then .ok payload else .error .tooLarge :=
  let ⟨_, hlimit⟩ := h
  (bounded_decompress bytes).eq hlimit limit (Nat.zero_le limit)

end RemoteCall.Gzip
