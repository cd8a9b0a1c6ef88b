import Famicom.Sound.Length
import Famicom.Sound.Timer

/-!
# The triangle channel

The triangle channel has no volume.  It steps through a 32-step wave while both its length counter
and its linear counter, a finer timer clocked every quarter frame, have time left.  One register bit
both halts the length counter and keeps the linear counter reloading.
-/

namespace Famicom.Sound

/-- The linear counter. -/
structure LinearCounter where
  reloadValue : UInt8
  count : UInt8
  reload : Bool
  deriving DecidableEq, Repr

namespace LinearCounter

/-- Count one quarter frame; a pending reload stays pending while `keepReloading` holds. -/
def clock (keepReloading : Bool) (l : LinearCounter) : LinearCounter :=
  { l with
    count := if l.reload then l.reloadValue else if l.count ≠ 0 then l.count - 1 else 0
    reload := l.reload && keepReloading }

/-- Cut the counts down to seven bits. -/
def confine (l : LinearCounter) : LinearCounter :=
  { l with reloadValue := l.reloadValue &&& 0x7F, count := l.count &&& 0x7F }

end LinearCounter

/-- The level of each step of the wave: from 15 down to 0 and up again. -/
def triangleWave : Vector UInt8 32 := #v[
  15, 14, 13, 12, 11, 10, 9, 8, 7, 6, 5, 4, 3, 2, 1, 0,
  0, 1, 2, 3, 4, 5, 6, 7, 8, 9, 10, 11, 12, 13, 14, 15]

/-- The triangle channel. -/
structure Triangle where
  length : LengthCounter
  linear : LinearCounter
  timer : Timer
  step : UInt8
  deriving DecidableEq, Repr

namespace Triangle

def powerOn : Triangle := ⟨.powerOn, ⟨0, 0, false⟩, ⟨0, 0⟩, 0⟩

/-! ## Registers -/

/-- First register: the control bit and the linear reload value. -/
def writeLinear (t : Triangle) (value : UInt8) : Triangle :=
  { t with
    length := { t.length with halt := hasBits value 0x80 }
    linear := { t.linear with reloadValue := value &&& 0x7F } }

/-- Second register: low byte of the period. -/
def writeTimerLow (t : Triangle) (value : UInt8) : Triangle :=
  { t with timer := t.timer.writeLow value }

/-- Third register: high bits of the period and length load; reloads the linear counter. -/
def writeTimerHigh (t : Triangle) (value : UInt8) : Triangle :=
  { t with
    timer := t.timer.writeHigh value
    length := t.length.load value
    linear := { t.linear with reload := true } }

/-- Enable or disable the channel. -/
def enable (t : Triangle) (enabled : Bool) : Triangle :=
  { t with length := t.length.enable enabled }

/-! ## Clocks -/

/-- The wave advances when the timer reloads. -/
def advancing (t : Triangle) : Bool := t.length.running && t.linear.count != 0 && 1 < t.timer.period

/-- Count one timer clock. -/
def clockTimer (t : Triangle) : Triangle :=
  let (reloaded, timer) := t.timer.clock
  { t with timer, step := if reloaded && t.advancing then (t.step + 1) &&& 0x1F else t.step }

/-- Count one quarter frame. -/
def clockQuarter (t : Triangle) : Triangle := { t with linear := t.linear.clock t.length.halt }

/-- Count one half frame. -/
def clockHalf (t : Triangle) : Triangle := { t with length := t.length.clock }

/-! ## Output -/

/-- The level that the channel puts out. -/
def level (t : Triangle) : UInt8 :=
  if t.length.enabled && t.length.running && t.linear.count != 0 && 2 ≤ t.timer.period then
    triangleWave[t.step.toNat % 32]
  else 0

/-- Bring every field into the range that the registers can give it. -/
def confine (t : Triangle) : Triangle :=
  { t with linear := t.linear.confine, timer := t.timer.confine, step := t.step &&& 0x1F }

end Triangle

end Famicom.Sound
