import Famicom.Word

/-!
# Volume envelopes

An envelope is clocked every quarter frame.  The first clock after a restart sets the decay level
to 15; from then on the level falls by one each time the divider has counted down from the volume,
and at zero it stays or, when looping, starts again at 15.  With a constant volume the level is the
volume itself.
-/

namespace Famicom.Sound

/-- The state of an envelope. -/
structure Envelope where
  constantVolume : Bool
  volume : UInt8
  start : Bool
  divider : UInt8
  decay : UInt8
  deriving DecidableEq, Repr

namespace Envelope

def powerOn : Envelope := ⟨false, 0, false, 0, 0⟩

/-- Set the volume and choose between constant and decaying level. -/
def write (e : Envelope) (value : UInt8) : Envelope :=
  { e with constantVolume := hasBits value 0x10, volume := value &&& 0x0F }

/-- Let the next clock restart the decay. -/
def restart (e : Envelope) : Envelope := { e with start := true }

/-- The decay level one step on. -/
def lowerDecay (looping : Bool) (decay : UInt8) : UInt8 :=
  if decay ≠ 0 then decay - 1 else if looping then 15 else 0

/-- Count one quarter frame. -/
def clock (looping : Bool) (e : Envelope) : Envelope :=
  if e.start then { e with start := false, decay := 15, divider := e.volume }
  else if e.divider = 0 then { e with divider := e.volume, decay := lowerDecay looping e.decay }
  else { e with divider := e.divider - 1 }

/-- The volume that the channel plays at. -/
def level (e : Envelope) : UInt8 := if e.constantVolume then e.volume else e.decay

/-- Cut every field down to four bits. -/
def confine (e : Envelope) : Envelope :=
  { e with volume := e.volume &&& 0x0F, divider := e.divider &&& 0x0F, decay := e.decay &&& 0x0F }

end Envelope

end Famicom.Sound
