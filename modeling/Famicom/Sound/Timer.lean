import Famicom.Word

/-!
# Channel timers

A timer divides the clock: it counts down, and a clock that finds it at zero reloads the period
and lets the channel's waveform advance.
-/

namespace Famicom.Sound

/-- A divider with its period and the clocks left before it reloads. -/
structure Timer where
  period : UInt16
  counter : UInt16
  deriving DecidableEq, Repr

namespace Timer

/-- The largest period that the timer registers of the tone channels hold. -/
def maxPeriod : UInt16 := 0x07FF

/-- Count one clock; the flag tells whether the timer reloaded. -/
def clock (t : Timer) : Bool × Timer :=
  if t.counter = 0 then (true, { t with counter := t.period })
  else (false, { t with counter := t.counter - 1 })

/-- Replace the low byte of the period. -/
def writeLow (t : Timer) (value : UInt8) : Timer :=
  { t with period := wordOf value (highByte t.period) }

/-- Replace the upper three bits of the period. -/
def writeHigh (t : Timer) (value : UInt8) : Timer :=
  { t with period := wordOf (lowByte t.period) (value &&& 0x07) }

/-- Cut period and counter down to the width of the timer registers. -/
def confine (t : Timer) : Timer :=
  ⟨t.period &&& maxPeriod, t.counter &&& maxPeriod⟩

end Timer

end Famicom.Sound
