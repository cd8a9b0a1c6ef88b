import Famicom.Proofs.Console.Replay
import Famicom.Proofs.Console.Stepping

/-!
# Counting what the devices are sent

The console keeps totals of its own, but they are separate from what it does to its devices, and
the cycles that the cartridge counts have no total at all.  Here the console runs with a meter
beside it, which notes every tick and every scanline that reaches the cartridge and every step of
the frame sequencer, one by one, when it happens.

* `Metered.step_console`, `Metered.runFrame_console`, `Metered.play_console` — the meter has no
  influence: instructions, frames and sequences of calls go as they go without it.
-/

namespace Famicom.Console

/-- How often each thing has been sent to a device. -/
structure Meter where
  ticks : Nat := 0
  sequencerSteps : Nat := 0
  scanlines : Nat := 0
  deriving DecidableEq, Repr

/-- A console with a meter beside it. -/
structure Metered where
  console : Console
  meter : Meter

namespace Metered

/-! ## What is noted -/

/-- Let the cartridge go through something and note it; without a cartridge nothing happens. -/
def send (f : Cartridge → Cartridge) (note : Meter → Meter) (m : Metered) : Metered :=
  match m.console.bus.cartridge with
  | some c => ⟨{ m.console with bus := m.console.bus.attach (f c) }, note m.meter⟩
  | none => m

/-- A processor cycle passes. -/
def tick : Metered → Metered := send Cartridge.tick fun t => { t with ticks := t.ticks + 1 }

/-- A number of processor cycles pass. -/
def ticks : Nat → Metered → Metered
  | 0, m => m
  | n + 1, m => ticks n m.tick

/-- A scanline passes. -/
def clockScanline : Metered → Metered :=
  send Cartridge.clockScanline fun t => { t with scanlines := t.scanlines + 1 }

/-- The frame sequencer takes a step. -/
def stepSequencer (m : Metered) : Metered :=
  ⟨m.console.stepSequencer, { m.meter with sequencerSteps := m.meter.sequencerSteps + 1 }⟩

/-- A change of the console that sends nothing. -/
def change (f : Console → Console) (m : Metered) : Metered := ⟨f m.console, m.meter⟩

/-! ## Instructions and frames -/

/-- Execute the instruction of a step. -/
def afterInstruction (m : Metered) : Metered :=
  let (cycles, c) := execOn Exec.step m.console
  (ticks cycles ⟨c, m.meter⟩).change fun c =>
    { c with totals := { c.totals with cpuSteps := c.totals.cpuSteps + 1 } }

/-- Execute one instruction and take an interrupt that is due. -/
def step (m : Metered) : Except Error Nat × Metered :=
  if !m.console.hasProgram then (.error .noProgram, m)
  else match m.console.cpu.halt with
    | some halt => (.error (.halted halt), m)
    | none =>
      let cycles := m.console.instructionCycles
      let m := m.afterInstruction
      match m.console.cpu.halt with
      | some halt => (.error (.halted halt), m.change fun c => (reportHalt halt c).2)
      | none =>
        let (extra, c) := takeInterrupts m.console
        let m := ticks extra ⟨c, m.meter⟩
        (.ok (cycles + extra), m.change fun c =>
          { c with
            totals := { c.totals with
              cpuCycles := c.totals.cpuCycles + UInt64.ofNat (cycles + extra) } })

/-- Take the sequencer steps that are due, at most `left` of them. -/
def fireSteps : (left : Nat) → Metered → Metered
  | 0, m => m
  | left + 1, m =>
    if m.console.stepDue then
      fireSteps left (m.change fun c =>
        { c with clock := { c.clock with steps := c.clock.steps + 1 } }).stepSequencer
    else m

/-- Pass the end of one scanline. -/
def passLine (m : Metered) : Metered :=
  let line := m.console.clock.lines
  let m := m.change fun c => { c with clock := { c.clock with lines := line + 1 } }
  if lineClocks m.console.settings line then
    m.clockScanline.change fun c =>
      { c with totals := { c.totals with scanlines := c.totals.scanlines + 1 } }
  else m

/-- Pass the ends of the scanlines that are due, at most `left` of them. -/
def fireLines : (left : Nat) → Metered → Metered
  | 0, m => m
  | left + 1, m => if m.console.lineDue then fireLines left m.passLine else m

/-- Fire the sequencer steps and scanlines that fall due at the present position in the frame. -/
def fireFrameEvents (m : Metered) : Metered :=
  let c := m.console
  let m := m.fireSteps (c.settings.sequencerStepsPerFrame.toNat - c.clock.steps)
  let c := m.console
  if c.settings.synthesizeScanlines then
    m.fireLines (c.settings.scanlinesPerFrame.toNat - c.clock.lines)
  else m

/-- Step until the frame's cycles have passed, with at most `fuel` steps. -/
def runCycles : (fuel : Nat) → Metered → Except Error Unit × Metered
  | 0, m => (.ok (), m)
  | fuel + 1, m =>
    if m.console.clock.position < m.console.settings.cyclesPerFrame.toNat then
      match m.step with
      | (.ok cycles, m) => runCycles fuel (m.change (·.advanceClock cycles)).fireFrameEvents
      | (.error e, m) => (.error e, m)
    else (.ok (), m)

/-- Run one frame. -/
def runFrame (m : Metered) : Except Error Unit × Metered :=
  if !m.console.hasProgram then (.error .noProgram, m)
  else match m.runCycles m.console.settings.cyclesPerFrame.toNat with
    | (.ok (), m) => (.ok (), m.change endFrame)
    | (.error e, m) => (.error e, m)

/-! ## Sequences of calls -/

/-- Make a call. -/
def call (c : Call) (m : Metered) : Except Error (Option Nat) × Metered :=
  match c with
  | .step =>
    match m.step with
    | (.ok cycles, m) => (.ok (some cycles), m)
    | (.error e, m) => (.error e, m)
  | .runFrame =>
    match m.runFrame with
    | (.ok (), m) => (.ok none, m)
    | (.error e, m) => (.error e, m)
  | .raiseNmi => (.ok none, m.change fun c => (raiseNmi c).2)

/-- Make calls one after the other, as long as they succeed. -/
def play : List Call → Metered → Except Error Unit × Metered
  | [], m => (.ok (), m)
  | c :: calls, m =>
    match m.call c with
    | (.ok _, m) => play calls m
    | (.error e, m) => (.error e, m)

/-! ## The meter has no influence -/

/-- Forget the meter. -/
def plain {α : Type} (r : Except Error α × Metered) : Except Error α × Console := (r.1, r.2.console)

/-- What ends well without the meter ends well with some meter. -/
theorem eq_ok_of_plain {α : Type} {r : Except Error α × Metered} {a : α} {d : Console}
    (h : plain r = (.ok a, d)) : ∃ meter, r = (.ok a, ⟨d, meter⟩) := by
  rcases r with ⟨result, ⟨console, meter⟩⟩
  cases h
  exact ⟨meter, rfl⟩

/-- A signal that is noted reaches the cartridge as one that is not. -/
theorem send_console (f : Cartridge → Cartridge) (note : Meter → Meter) (m : Metered) :
    (m.send f note).console =
      { m.console with
        bus := { m.console.bus with cartridge := m.console.bus.cartridge.map f } } := by
  unfold send
  cases h : m.console.bus.cartridge with
  | some c => rfl
  | none =>
    dsimp only [Option.map_none]
    rw [← h]

theorem ticks_console (n : Nat) (m : Metered) :
    (m.ticks n).console = { m.console with bus := m.console.bus.tick n } := by
  induction n generalizing m with
  | zero =>
    unfold Bus.tick
    rw [show Cartridge.ticks 0 = id from funext fun _ => rfl, Option.map_id]
    rfl
  | succ n ih =>
    have hticks : Cartridge.ticks (n + 1) = Cartridge.ticks n ∘ Cartridge.tick := rfl
    rw [ticks, ih, tick, send_console, Bus.tick, Bus.tick, hticks, ← Option.map_map]

theorem afterInstruction_console (m : Metered) :
    m.afterInstruction.console = m.console.afterInstruction := by
  have hticks := ticks_console m.console.instructionCycles ⟨(execOn Exec.step m.console).2, m.meter⟩
  exact congrArg (fun c : Console =>
    { c with totals := { c.totals with cpuSteps := c.totals.cpuSteps + 1 } }) hticks

/-- An instruction goes as it goes without the meter. -/
theorem step_console (m : Metered) : plain m.step = Console.step.run m.console := by
  cases hprogram : m.console.hasProgram with
  | false =>
    rw [step_absent hprogram, step, hprogram]
    rfl
  | true =>
    cases hhalt : m.console.cpu.halt with
    | some halt =>
      rw [step_jammed hprogram hhalt, step, hprogram, hhalt]
      rfl
    | none =>
      rw [step_running hprogram hhalt, step, hprogram, hhalt, ← afterInstruction_console]
      dsimp only
      cases m.afterInstruction.console.cpu.halt with
      | some halt => rfl
      | none =>
        -- both copies of the step now end by counting the interrupt's cycles on the cartridge
        have hticks := ticks_console (takeInterrupts m.afterInstruction.console).1
          ⟨(takeInterrupts m.afterInstruction.console).2, m.afterInstruction.meter⟩
        exact congrArg (fun c : Console =>
          (Except.ok (m.console.instructionCycles + (takeInterrupts m.afterInstruction.console).1),
            { c with totals := { c.totals with
              cpuCycles := c.totals.cpuCycles + UInt64.ofNat (m.console.instructionCycles +
                (takeInterrupts m.afterInstruction.console).1) } })) hticks

/-- The sequencer steps of a stretch, by induction on how many are left. -/
theorem fireSteps_console (left : Nat) (m : Metered) :
    (m.fireSteps left).console = Console.fireSteps left m.console := by
  induction left generalizing m with
  | zero => rfl
  | succ left ih =>
    unfold fireSteps Console.fireSteps
    split
    · exact ih _
    · rfl

theorem passLine_console (m : Metered) : m.passLine.console = m.console.passLine := by
  unfold passLine Console.passLine
  dsimp only [change]
  split
  · rw [clockScanline, send_console]
    rfl
  · rfl

/-- The scanlines of a stretch, by induction on how many are left. -/
theorem fireLines_console (left : Nat) (m : Metered) :
    (m.fireLines left).console = Console.fireLines left m.console := by
  induction left generalizing m with
  | zero => rfl
  | succ left ih =>
    unfold fireLines Console.fireLines
    split
    · rw [ih, passLine_console]
    · rfl

theorem fireFrameEvents_console (m : Metered) :
    m.fireFrameEvents.console = m.console.fireFrameEvents := by
  unfold fireFrameEvents Console.fireFrameEvents
  dsimp only
  rw [fireSteps_console]
  split
  · rw [fireLines_console, fireSteps_console]
  · rw [fireSteps_console]

/-- The loop of a frame, by induction on the fuel. -/
theorem runCycles_console (fuel : Nat) (m : Metered) :
    plain (m.runCycles fuel) = (Console.runCycles fuel).run m.console := by
  induction fuel generalizing m with
  | zero => rfl
  | succ fuel ih =>
    have hstep := step_console m
    unfold runCycles Console.runCycles
    rw [Run.bind_run, Run.get_run]
    dsimp only
    split
    · rw [Run.bind_run, ← hstep]
      rcases m.step with ⟨e | cycles, m'⟩
      · rfl
      · rw [ih, fireFrameEvents_console]
        rfl
    · rfl

/-- A frame goes as it goes without the meter. -/
theorem runFrame_console (m : Metered) : plain m.runFrame = Console.runFrame.run m.console := by
  have hcycles := runCycles_console m.console.settings.cyclesPerFrame.toNat m
  unfold Console.runFrame runFrame
  simp only [Run.bind_run, Run.get_run]
  cases m.console.hasProgram with
  | false => rfl
  | true =>
    simp only [Bool.not_true, Bool.false_eq_true, if_false]
    rw [Run.bind_run, Run.get_run]
    dsimp only
    rw [Run.bind_run, ← hcycles]
    rcases m.runCycles m.console.settings.cyclesPerFrame.toNat with ⟨e | u, m'⟩
    · rfl
    · rfl

/-- Whatever is called, the meter is a note beside it. -/
theorem call_console (c : Call) (m : Metered) : plain (m.call c) = c.run.run m.console := by
  cases c with
  | step =>
    unfold Call.run call
    rw [Run.map_run, ← step_console]
    rcases m.step with ⟨e | cycles, m'⟩
    · rfl
    · rfl
  | runFrame =>
    unfold Call.run call
    rw [Run.bind_run, ← runFrame_console]
    rcases m.runFrame with ⟨e | u, m'⟩
    · rfl
    · rfl
  | raiseNmi => rfl

end Metered

/-- Make calls one after the other, as long as they succeed. -/
def play : List Call → Run Unit
  | [] => return
  | call :: calls => do
    let _ ← call.run
    play calls

/-- Calls go as they go without the meter. -/
theorem Metered.play_console (calls : List Call) (m : Metered) :
    plain (m.play calls) = (Console.play calls).run m.console := by
  induction calls generalizing m with
  | nil => rfl
  | cons c calls ih =>
    unfold Metered.play Console.play
    rw [Run.bind_run, ← call_console]
    rcases m.call c with ⟨e | result, m'⟩
    · rfl
    · exact ih m'

end Famicom.Console
