import Famicom.Word

/-!
# The frame sequencer

The sequencer steps through cycles of four or five steps and tells the channels when a quarter and
when a half frame has passed.  At the last step of a four-step cycle it raises its interrupt flag,
unless that is inhibited.
-/

namespace Famicom.Sound

/-- The sequencer.  Steps are numbered from one; zero means that none has been taken since the
mode was written. -/
structure Sequencer where
  fiveStep : Bool
  step : UInt8
  irqInhibit : Bool
  irqFlag : Bool
  deriving DecidableEq, Repr

/-- What a step of the sequencer clocks. -/
structure Beat where
  quarter : Bool
  half : Bool
  deriving DecidableEq, Repr

namespace Sequencer

def powerOn : Sequencer := ⟨false, 0, false, false⟩

/-- What the given step of the cycle clocks. -/
def beatAt (fiveStep : Bool) (step : UInt8) : Beat :=
  if step = 2 || step = (if fiveStep then 5 else 4) then ⟨true, true⟩
  else if fiveStep && step = 4 then ⟨false, false⟩
  else ⟨true, false⟩

/-- Take the next step of the cycle. -/
def advance (s : Sequencer) : Beat × Sequencer :=
  let step := s.step % (if s.fiveStep then 5 else 4) + 1
  let raised := !s.fiveStep && step == 4 && !s.irqInhibit
  (beatAt s.fiveStep step, { s with step, irqFlag := s.irqFlag || raised })

/-- Choose the cycle and start it over; inhibiting the interrupt also drops its flag. -/
def writeControl (s : Sequencer) (value : UInt8) : Sequencer :=
  let irqInhibit := hasBits value 0x40
  { fiveStep := hasBits value 0x80, step := 0, irqInhibit, irqFlag := s.irqFlag && !irqInhibit }

/-- Drop the interrupt flag. -/
def acknowledge (s : Sequencer) : Sequencer := { s with irqFlag := false }

/-- Bring the step into the range of the cycle. -/
def confine (s : Sequencer) : Sequencer :=
  { s with step := s.step % (if s.fiveStep then 6 else 5) }

end Sequencer

end Famicom.Sound
