import Famicom.Console.Basic

/-!
# Running a program by instructions and frames

`step` executes one instruction, lets the cartridge count its cycles and then takes an interrupt if
one is due: a requested non-maskable interrupt first, else the one on the interrupt line.

`runFrame` steps until the cycles of one frame have passed and fires the sequencer steps and
scanlines that fall due on the way.  Cycles beyond the end of the frame carry over into the next.
-/

namespace Famicom.Console

/-! ## Instructions -/

/-- Take an interrupt that is due; gives the cycles it cost. -/
def takeInterrupts : StateM Console Nat := do
  if (← get).nmiRequested then
    modify fun c => { c with nmiRequested := false }
    let cycles ← exec Exec.nmi
    count fun t => { t with nmis := t.nmis + 1 }
    report (.nmi (← get).cpu.pc)
    return cycles
  if !(← get).bus.irqLine then return 0
  let cycles ← exec Exec.irq
  if 0 < cycles then
    count fun t => { t with irqs := t.irqs + 1 }
    report (.irq (← get).cpu.totalCycles (← get).cpu.pc)
  return cycles

/-- Record that the processor jammed, once. -/
def reportHalt (halt : Halt) : StateM Console Unit := do
  if !(← get).haltLogged then
    modify fun c => { c with haltLogged := true }
    report (.halted halt)

/-- Execute one instruction and take an interrupt that is due; gives the cycles of both. -/
def step : Run Nat := do
  if !(← get).hasProgram then throw .noProgram
  if let some halt := (← get).cpu.halt then throw (.halted halt)
  let cycles ← exec Exec.step
  count fun t => { t with cpuSteps := t.cpuSteps + 1 }
  onBus (·.tick cycles)
  if let some halt := (← get).cpu.halt then
    reportHalt halt
    throw (.halted halt)
  let extra ← takeInterrupts
  onBus (·.tick extra)
  count fun t => { t with cpuCycles := t.cpuCycles + UInt64.ofNat (cycles + extra) }
  return cycles + extra

/-- Request a non-maskable interrupt, to be taken after the next instruction. -/
def raiseNmi : StateM Console Unit := modify fun c => { c with nmiRequested := true }

/-! ## Frames -/

/-- The cycle within a frame of `cycles` at which part `k` of `parts` equal parts ends. -/
def boundary (cycles parts k : Nat) : Nat := k * cycles / parts

/-- Take one step of the frame sequencer. -/
def stepSequencer (c : Console) : Console :=
  { c with
    bus := { c.bus with apu := c.bus.apu.stepSequencer }
    totals := { c.totals with sequencerSteps := c.totals.sequencerSteps + 1 } }

/-- The end of another sequencer step of the frame has been passed. -/
def stepDue (c : Console) : Bool :=
  boundary c.settings.cyclesPerFrame.toNat c.settings.sequencerStepsPerFrame.toNat
    (c.clock.steps + 1) ≤ c.clock.position

/-- Take the sequencer steps that are due, at most `left` of them. -/
def fireSteps : (left : Nat) → Console → Console
  | 0, c => c
  | left + 1, c =>
    if c.stepDue then
      fireSteps left { c with clock := { c.clock with steps := c.clock.steps + 1 } }.stepSequencer
    else c

/-- The end of another scanline of the frame has been passed. -/
def lineDue (c : Console) : Bool :=
  boundary c.settings.cyclesPerFrame.toNat c.settings.scanlinesPerFrame.toNat
    (c.clock.lines + 1) ≤ c.clock.position

/-- Scanline `line` of the frame clocks the board: the visible ones and the last one do. -/
def lineClocks (s : Settings) (line : Nat) : Bool :=
  line < s.visibleScanlines.toNat || line + 1 == s.scanlinesPerFrame.toNat

/-- Pass the end of one scanline. -/
def passLine (c : Console) : Console :=
  let line := c.clock.lines
  let c := { c with clock := { c.clock with lines := line + 1 } }
  if lineClocks c.settings line then
    { c with
      bus := c.bus.clockScanline
      totals := { c.totals with scanlines := c.totals.scanlines + 1 } }
  else c

/-- Pass the ends of the scanlines that are due, at most `left` of them. -/
def fireLines : (left : Nat) → Console → Console
  | 0, c => c
  | left + 1, c => if c.lineDue then fireLines left c.passLine else c

/-- Fire the sequencer steps and scanlines that fall due at the present position in the frame. -/
def fireFrameEvents (c : Console) : Console :=
  let c := fireSteps (c.settings.sequencerStepsPerFrame.toNat - c.clock.steps) c
  if c.settings.synthesizeScanlines then
    fireLines (c.settings.scanlinesPerFrame.toNat - c.clock.lines) c
  else c

/-- Move on by the given cycles within the frame. -/
def advanceClock (c : Console) (cycles : Nat) : Console :=
  { c with clock := { c.clock with position := c.clock.position + cycles } }

/-- Step until the frame's cycles have passed, with at most `fuel` steps. -/
def runCycles : (fuel : Nat) → Run Unit
  | 0 => return
  | fuel + 1 => do
    let c ← get
    if c.clock.position < c.settings.cyclesPerFrame.toNat then
      let cycles ← step
      modify fun c => (c.advanceClock cycles).fireFrameEvents
      runCycles fuel

/-- End the frame and carry what was run beyond it into the next. -/
def endFrame (c : Console) : Console :=
  { c with
    clock := { position := c.clock.position - c.settings.cyclesPerFrame.toNat }
    totals := { c.totals with frames := c.totals.frames + 1 } }

/-- Run one frame.  A frame has fewer steps than cycles, since every instruction takes several
cycles. -/
def runFrame : Run Unit := do
  if !(← get).hasProgram then throw .noProgram
  runCycles (← get).settings.cyclesPerFrame.toNat
  modify endFrame

/-! ## Audio -/

/-- The next `n` samples. -/
def takeSamples (n : Nat) : StateM Console (Array UInt8) := fun c =>
  let (samples, apu) := c.bus.apu.samples n
  (samples, { c with bus := { c.bus with apu } })

end Famicom.Console
