import Famicom.Sound.Envelope
import Famicom.Sound.Length
import Famicom.Sound.Timer

/-!
# Pulse channels

A pulse channel steps through one of four eight-step waveforms at the rate of its timer, at the
level of its envelope.  Its sweep unit shifts the period up or down every few half frames, and
mutes the channel whenever the period is below 8 or the sweep's target does not fit the timer.
-/

namespace Famicom.Sound

/-- The sweep unit of a pulse channel.  The first pulse negates by one's complement, which lowers
its target by one more than the second's. -/
structure Sweep where
  onesComplement : Bool
  enabled : Bool
  period : UInt8
  negate : Bool
  shift : UInt8
  reload : Bool
  divider : UInt8
  deriving DecidableEq, Repr

namespace Sweep

def powerOn (onesComplement : Bool) : Sweep := ⟨onesComplement, false, 1, false, 0, false, 0⟩

/-- Set the sweep's parameters and let the next half frame reload its divider. -/
def write (s : Sweep) (value : UInt8) : Sweep :=
  { s with
    enabled := hasBits value 0x80
    period := ((value >>> 4) &&& 0x07) + 1
    negate := hasBits value 0x08
    shift := value &&& 0x07
    reload := true }

/-- The period that a sweep step leads to; below zero it stops at zero. -/
def target (s : Sweep) (period : UInt16) : UInt16 :=
  let change := period >>> s.shift.toUInt16
  if s.negate then
    let change := change + (if s.onesComplement then 1 else 0)
    if change ≤ period then period - change else 0
  else period + change

/-- The period is too short to sound, or its target too long. -/
def mutes (s : Sweep) (period : UInt16) : Bool :=
  period < 8 || Timer.maxPeriod < s.target period

/-- The period after a sweep step. -/
def adjust (s : Sweep) (period : UInt16) : UInt16 :=
  if s.shift = 0 || s.mutes period then period else s.target period

/-- Count one half frame; gives the channel's new period. -/
def clock (s : Sweep) (period : UInt16) : UInt16 × Sweep :=
  if s.divider = 0 || s.reload then
    (if s.divider = 0 && s.enabled then s.adjust period else period,
      { s with divider := s.period, reload := false })
  else (period, { s with divider := s.divider - 1 })

/-- Bring every field into the range that the registers can give it. -/
def confine (s : Sweep) : Sweep :=
  { s with
    period := min (max s.period 1) 8
    shift := s.shift &&& 0x07
    divider := min s.divider 8 }

end Sweep

/-- The four waveforms. -/
def dutyWaves : Vector (Vector Bool 8) 4 := #v[
  #v[false, true, false, false, false, false, false, false],
  #v[false, true, true, false, false, false, false, false],
  #v[false, true, true, true, true, false, false, false],
  #v[true, false, false, true, true, true, true, true]]

/-- The waveform `duty` is high at its step `step`. -/
def dutyHigh (duty step : UInt8) : Bool :=
  dutyWaves[duty.toNat % 4][step.toNat % 8]

/-- A pulse channel. -/
structure Pulse where
  length : LengthCounter
  envelope : Envelope
  timer : Timer
  sweep : Sweep
  duty : UInt8
  dutyStep : UInt8
  deriving DecidableEq, Repr

namespace Pulse

def powerOn (onesComplement : Bool) : Pulse :=
  ⟨.powerOn, .powerOn, ⟨0, 0⟩, .powerOn onesComplement, 0, 0⟩

/-! ## Registers -/

/-- First register: waveform, length halt and envelope. -/
def writeControl (p : Pulse) (value : UInt8) : Pulse :=
  { p with
    duty := value >>> 6
    length := { p.length with halt := hasBits value 0x20 }
    envelope := p.envelope.write value }

/-- Second register: sweep. -/
def writeSweep (p : Pulse) (value : UInt8) : Pulse := { p with sweep := p.sweep.write value }

/-- Third register: low byte of the period. -/
def writeTimerLow (p : Pulse) (value : UInt8) : Pulse := { p with timer := p.timer.writeLow value }

/-- Fourth register: high bits of the period and length load; restarts waveform and envelope. -/
def writeTimerHigh (p : Pulse) (value : UInt8) : Pulse :=
  { p with
    timer := p.timer.writeHigh value
    length := p.length.load value
    dutyStep := 0
    envelope := p.envelope.restart }

/-- Enable or disable the channel. -/
def enable (p : Pulse) (enabled : Bool) : Pulse :=
  { p with length := p.length.enable enabled }

/-! ## Clocks -/

/-- Count one timer clock. -/
def clockTimer (p : Pulse) : Pulse :=
  let (reloaded, timer) := p.timer.clock
  { p with timer, dutyStep := if reloaded then (p.dutyStep + 1) &&& 0x07 else p.dutyStep }

/-- Count one quarter frame. -/
def clockQuarter (p : Pulse) : Pulse :=
  { p with envelope := p.envelope.clock p.length.halt }

/-- Count one half frame. -/
def clockHalf (p : Pulse) : Pulse :=
  let (period, sweep) := p.sweep.clock p.timer.period
  { p with length := p.length.clock, timer := { p.timer with period }, sweep }

/-! ## Output -/

/-- The level that the channel puts out. -/
def level (p : Pulse) : UInt8 :=
  if p.length.enabled && p.length.running && dutyHigh p.duty p.dutyStep
      && !p.sweep.mutes p.timer.period then p.envelope.level
  else 0

/-- Bring every field into the range that the registers can give it. -/
def confine (p : Pulse) : Pulse :=
  { p with
    duty := p.duty &&& 0x03
    dutyStep := p.dutyStep &&& 0x07
    timer := p.timer.confine
    envelope := p.envelope.confine
    sweep := p.sweep.confine }

end Pulse

end Famicom.Sound
