import Famicom.Sound.Mixing
import Famicom.Sound.Noise
import Famicom.Sound.Pulse
import Famicom.Sound.Sequencer
import Famicom.Sound.Triangle

/-!
# The audio unit

Two pulse channels, a triangle and a noise channel, and the sequencer that clocks their slow units.
Programs see the channels through registers; the host pulls samples, and pulling them runs the
channel timers.

The number of timer clocks between two samples is not whole.  `cycleDebt` is the fraction of a clock
that is owed; each sample adds the clocks of one sample period to it and runs the whole ones.
-/

namespace Famicom.Sound

/-- The audio unit. -/
structure Apu where
  pulse1 : Pulse
  pulse2 : Pulse
  triangle : Triangle
  noise : Noise
  sequencer : Sequencer
  cpuCycle : UInt64
  sampleRate : UInt32
  cycleDebt : Float
  mixing : Mixing
  memo : MixMemo

namespace Apu

/-- The rate of the processor clock in hertz. -/
def clockRate : Float := 1789772.7272727273

/-- The sample rate at power-on. -/
def defaultSampleRate : UInt32 := 48000

/-- The lowest sample rate. -/
def minSampleRate : UInt32 := 8000

def powerOn : Apu where
  pulse1 := .powerOn true
  pulse2 := .powerOn false
  triangle := .powerOn
  noise := .powerOn
  sequencer := .powerOn
  cpuCycle := 0
  sampleRate := defaultSampleRate
  cycleDebt := 0
  mixing := .nonlinear
  memo := .empty

instance : Inhabited Apu := ⟨powerOn⟩

/-- Back to power-on; sample rate and mixing law stay. -/
def reset (a : Apu) : Apu := { powerOn with sampleRate := a.sampleRate, mixing := a.mixing }

/-- Choose the sample rate, at least the lowest one. -/
def withSampleRate (a : Apu) (rate : UInt32) : Apu :=
  { a with sampleRate := max rate minSampleRate }

/-- Choose the mixing law.  Samples mixed by another law are forgotten. -/
def withMixing (a : Apu) (mixing : Mixing) : Apu :=
  if a.mixing = mixing then a else { a with mixing, memo := .empty }

/-! ## Frame clocks -/

/-- Clock envelopes and the linear counter. -/
def clockQuarter (a : Apu) : Apu :=
  { a with
    pulse1 := a.pulse1.clockQuarter
    pulse2 := a.pulse2.clockQuarter
    triangle := a.triangle.clockQuarter
    noise := a.noise.clockQuarter }

/-- Clock length counters and sweeps. -/
def clockHalf (a : Apu) : Apu :=
  { a with
    pulse1 := a.pulse1.clockHalf
    pulse2 := a.pulse2.clockHalf
    triangle := a.triangle.clockHalf
    noise := a.noise.clockHalf }

/-- Clock what a step of the sequencer asks for. -/
def clockFrame (a : Apu) (clocks : Beat) : Apu :=
  let a := if clocks.quarter then a.clockQuarter else a
  if clocks.half then a.clockHalf else a

/-- Take one step of the frame sequencer. -/
def stepSequencer (a : Apu) : Apu :=
  let (clocks, sequencer) := a.sequencer.advance
  { a with sequencer }.clockFrame clocks

/-! ## Registers -/

/-- Enable the channels whose bits are set and disable the others. -/
def writeStatus (a : Apu) (value : UInt8) : Apu :=
  { a with
    pulse1 := a.pulse1.enable (hasBits value 0x01)
    pulse2 := a.pulse2.enable (hasBits value 0x02)
    triangle := a.triangle.enable (hasBits value 0x04)
    noise := a.noise.enable (hasBits value 0x08) }

/-- Choose the sequencer's cycle; the five-step cycle clocks everything once right away. -/
def writeFrameCounter (a : Apu) (value : UInt8) : Apu :=
  let sequencer := a.sequencer.writeControl value
  { a with sequencer }.clockFrame ⟨sequencer.fiveStep, sequencer.fiveStep⟩

/-- Write a register.  Addresses without a register, and those of the sample channel, do
nothing. -/
def write (a : Apu) (addr : UInt16) (value : UInt8) : Apu :=
  match addr with
  | 0x4000 => { a with pulse1 := a.pulse1.writeControl value }
  | 0x4001 => { a with pulse1 := a.pulse1.writeSweep value }
  | 0x4002 => { a with pulse1 := a.pulse1.writeTimerLow value }
  | 0x4003 => { a with pulse1 := a.pulse1.writeTimerHigh value }
  | 0x4004 => { a with pulse2 := a.pulse2.writeControl value }
  | 0x4005 => { a with pulse2 := a.pulse2.writeSweep value }
  | 0x4006 => { a with pulse2 := a.pulse2.writeTimerLow value }
  | 0x4007 => { a with pulse2 := a.pulse2.writeTimerHigh value }
  | 0x4008 => { a with triangle := a.triangle.writeLinear value }
  | 0x400A => { a with triangle := a.triangle.writeTimerLow value }
  | 0x400B => { a with triangle := a.triangle.writeTimerHigh value }
  | 0x400C => { a with noise := a.noise.writeControl value }
  | 0x400E => { a with noise := a.noise.writePeriod value }
  | 0x400F => { a with noise := a.noise.writeLength value }
  | 0x4015 => a.writeStatus value
  | 0x4017 => a.writeFrameCounter value
  | _ => a

/-- The status byte: a bit for each running length counter and one for the frame interrupt. -/
def status (a : Apu) : UInt8 :=
  (if a.pulse1.length.running then 0x01 else 0) ||| (if a.pulse2.length.running then 0x02 else 0)
    ||| (if a.triangle.length.running then 0x04 else 0)
    ||| (if a.noise.length.running then 0x08 else 0)
    ||| (if a.sequencer.irqFlag then 0x40 else 0)

/-- Read the status byte, which acknowledges the frame interrupt. -/
def readStatus (a : Apu) : UInt8 × Apu :=
  (a.status, { a with sequencer := a.sequencer.acknowledge })

/-- The frame interrupt is raised. -/
def irqPending (a : Apu) : Bool := a.sequencer.irqFlag

/-! ## Samples -/

/-- The levels of the channels. -/
def levels (a : Apu) : Levels :=
  ⟨a.pulse1.level, a.pulse2.level, a.triangle.level, a.noise.level⟩

/-- Run the timers for one processor cycle.  The timers of all channels but the triangle run at
half the rate, on even cycles. -/
def clockTimers (a : Apu) : Apu :=
  let cpuCycle := a.cpuCycle + 1
  if cpuCycle &&& 1 = 0 then
    { a with
      cpuCycle
      pulse1 := a.pulse1.clockTimer
      pulse2 := a.pulse2.clockTimer
      noise := a.noise.clockTimer
      triangle := a.triangle.clockTimer }
  else { a with cpuCycle, triangle := a.triangle.clockTimer }

/-- Run the timers for a number of processor cycles. -/
def runTimers : Nat → Apu → Apu
  | 0, a => a
  | n + 1, a => runTimers n a.clockTimers

/-- Add the clocks of one sample period to the debt; gives the whole clocks now due. -/
def accrue (a : Apu) : Nat × Apu :=
  let debt := a.cycleDebt + clockRate / a.sampleRate.toFloat
  let due := debt.toUInt64
  (due.toNat, { a with cycleDebt := debt - due.toFloat })

/-- Run the timers up to the next sample and mix it. -/
def sample (a : Apu) : UInt8 × Apu :=
  let (clocks, a) := a.accrue
  let a := runTimers clocks a
  let (sample, memo) := a.memo.sample a.mixing a.levels
  (sample, { a with memo })

/-- Append `n` samples to a buffer. -/
def samplesOnto (buffer : Array UInt8) : Nat → Apu → Array UInt8 × Apu
  | 0, a => (buffer, a)
  | n + 1, a =>
    let (sample, a) := a.sample
    samplesOnto (buffer.push sample) n a

/-- The next `n` samples. -/
def samples (n : Nat) (a : Apu) : Array UInt8 × Apu := samplesOnto #[] n a

/-! ## Restoring -/

/-- Bring every field into the range that the registers can give it, and forget mixed samples. -/
def confine (a : Apu) : Apu :=
  { a with
    pulse1 := a.pulse1.confine
    pulse2 := a.pulse2.confine
    triangle := a.triangle.confine
    noise := a.noise.confine
    sequencer := a.sequencer.confine
    cycleDebt := if 0 ≤ a.cycleDebt && a.cycleDebt < 1 then a.cycleDebt else 0
    memo := .empty }

/-! ## Description -/

/-- The mixing law by name. -/
def mixingName : Mixing → String
  | .nonlinear => "Nonlinear"
  | .linear => "Linear"

/-- One line on the state of the unit. -/
def describe (a : Apu) : String :=
  let s := a.sequencer
  let counts := [a.pulse1.length, a.pulse2.length, a.triangle.length, a.noise.length]
  let lengths := ",".intercalate (counts.map fun l => toString l.count)
  let mix := mixingName a.mixing
  s!"APU seq_step={s.step} five_step={s.fiveStep} irq_inhibit={s.irqInhibit} irq={s.irqFlag} " ++
    s!"len=[{lengths}] rate={a.sampleRate} mix={mix}"

end Apu

end Famicom.Sound
