import Famicom.Word

/-!
# Length counters

A length counter silences its channel after a number of half frames.  It counts down to zero and
stays there, unless it is halted.  Only an enabled channel can load its counter; disabling a channel
clears it.
-/

namespace Famicom.Sound

/-- The half frames that each load index stands for. -/
def lengthLoads : Vector UInt8 32 := #v[
  10, 254, 20, 2, 40, 4, 80, 6, 160, 8, 60, 10, 14, 12, 26, 14,
  12, 16, 24, 18, 48, 20, 96, 22, 192, 24, 72, 26, 16, 28, 32, 30]

/-- The enable flag, the halt flag and the counter of a channel. -/
structure LengthCounter where
  enabled : Bool
  halt : Bool
  count : UInt8
  deriving DecidableEq, Repr

namespace LengthCounter

/-- Disabled, running and empty. -/
def powerOn : LengthCounter := ⟨false, false, 0⟩

/-- The counter has half frames left. -/
def running (l : LengthCounter) : Bool := l.count != 0

/-- Enable or disable the channel. -/
def enable (l : LengthCounter) (enabled : Bool) : LengthCounter :=
  { l with enabled, count := if enabled then l.count else 0 }

/-- Load the counter with the entry that the upper five bits of `value` select. -/
def load (l : LengthCounter) (value : UInt8) : LengthCounter :=
  if l.enabled then
    { l with count := lengthLoads[(value >>> 3).toNat % 32] }
  else l

/-- Count one half frame. -/
def clock (l : LengthCounter) : LengthCounter :=
  if !l.halt && l.running then { l with count := l.count - 1 } else l

end LengthCounter

end Famicom.Sound
