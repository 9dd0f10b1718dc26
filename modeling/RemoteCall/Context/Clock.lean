/-! Two clocks. The monotonic one measures waiting; the wall clock gives the times that travel.

Both are read in nanoseconds, and a reading has whole seconds of 64 bits with a sign. -/
namespace RemoteCall

structure Clock where
  mono : Int
  wall : Int
deriving DecidableEq, Repr, Inhabited

namespace Clock

/-- The first time after all that a clock can hold. -/
def limit : Int := 9223372036854775808 * 1000000000

def Representable (t : Int) : Prop := -limit ≤ t ∧ t < limit

instance (t : Int) : Decidable (Representable t) := by unfold Representable; infer_instance

/-- The time after a span, unless no clock can hold it. -/
def later? (t : Int) (span : Nat) : Option Int :=
  let sum := t + span
  if Representable sum then some sum else none

/-- Where a clock can hold the later time, it is the sum. -/
theorem eq_of_later? {now t : Int} {span : Nat} (h : later? now span = some t) :
    t = now + span := by
  rw [later?] at h
  split at h
  · exact (Option.some.inj h).symm
  · cases h

/-- The span from one time to another, none if that lies before. -/
def spanUntil (now t : Int) : Nat := (t - now).toNat

/-- Timers go off at whole milliseconds, never early. -/
def timerTick (t : Int) : Int := (t + 999999) / 1000000 * 1000000

def advance (c : Clock) (span : Nat) : Clock := ⟨c.mono + span, c.wall + span⟩

theorem advance_zero (c : Clock) : c.advance 0 = c := by
  simp only [advance, Int.natCast_zero, Int.add_zero]

theorem advance_advance (c : Clock) (m n : Nat) : (c.advance m).advance n = c.advance (m + n) := by
  simp only [advance, Int.natCast_add, Int.add_assoc]

end Clock
end RemoteCall
