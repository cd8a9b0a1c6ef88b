import Famicom.Sound.Envelope
import Famicom.Sound.Length
import Famicom.Sound.Timer

/-!
# The noise channel

The noise channel is silent or plays at the level of its envelope as the low bit of a 15-bit
feedback shift register says.  The register shifts at the rate of the timer, whose period comes
from a table of sixteen.
-/

namespace Famicom.Sound

/-- The periods that the noise timer can have. -/
def noisePeriods : Vector UInt16 16 := #v[
  4, 8, 16, 32, 64, 96, 128, 160, 202, 254, 380, 508, 762, 1016, 2034, 4068]

/-- The noise channel. -/
structure Noise where
  length : LengthCounter
  envelope : Envelope
  timer : Timer
  shortMode : Bool
  shift : UInt16
  deriving DecidableEq, Repr

namespace Noise

def powerOn : Noise := ⟨.powerOn, .powerOn, ⟨noisePeriods[0], 0⟩, false, 1⟩

/-! ## Registers -/

/-- First register: length halt and envelope. -/
def writeControl (n : Noise) (value : UInt8) : Noise :=
  { n with
    length := { n.length with halt := hasBits value 0x20 }
    envelope := n.envelope.write value }

/-- Second register: feedback mode and period. -/
def writePeriod (n : Noise) (value : UInt8) : Noise :=
  { n with
    shortMode := hasBits value 0x80
    timer := { n.timer with
      period := noisePeriods.get (lowDigit value) } }

/-- Third register: length load; restarts the envelope. -/
def writeLength (n : Noise) (value : UInt8) : Noise :=
  { n with length := n.length.load value, envelope := n.envelope.restart }

/-- Enable or disable the channel. -/
def enable (n : Noise) (enabled : Bool) : Noise :=
  { n with length := n.length.enable enabled }

/-! ## Clocks -/

/-- The register after one shift: the low bit and one other are combined into bit 14. -/
def feedback (shortMode : Bool) (shift : UInt16) : UInt16 :=
  let tap := if shortMode then shift >>> 6 else shift >>> 1
  (shift >>> 1) ||| (((shift ^^^ tap) &&& 1) <<< 14)

/-- Count one timer clock. -/
def clockTimer (n : Noise) : Noise :=
  let (reloaded, timer) := n.timer.clock
  { n with timer, shift := if reloaded then feedback n.shortMode n.shift else n.shift }

/-- Count one quarter frame. -/
def clockQuarter (n : Noise) : Noise := { n with envelope := n.envelope.clock n.length.halt }

/-- Count one half frame. -/
def clockHalf (n : Noise) : Noise := { n with length := n.length.clock }

/-! ## Output -/

/-- The level that the channel puts out. -/
def level (n : Noise) : UInt8 :=
  if n.length.enabled && n.length.running && n.shift &&& 1 == 0 then n.envelope.level else 0

/-- Bring every field into the range that the registers can give it.  The shift register must not
be zero, since it would stay so. -/
def confine (n : Noise) : Noise :=
  let period := if noisePeriods.contains n.timer.period then n.timer.period else noisePeriods[0]
  let shift := n.shift &&& 0x7FFF
  { n with
    envelope := n.envelope.confine
    timer := ⟨period, min n.timer.counter period⟩
    shift := if shift = 0 then 1 else shift }

end Noise

end Famicom.Sound
