import Famicom.Console.Step

/-!
# Sound programs

A sound program has an initialization routine that is called once for a track and a play routine
that is called once a frame.  A routine is called with a return address that no instruction is
fetched from, and has returned when the processor arrives there.
-/

namespace Famicom.Console

/-- The address that routines return to. -/
def returnMark : UInt16 := 0x4100

/-- Execute one instruction of the routine at `addr`. -/
def stepRoutine (addr : UInt16) : Run Nat :=
  tryCatch step fun e => throw (.routineStopped addr e)

/-- Step until the routine has returned, with at most `fuel` steps and `budget` cycles. -/
def runRoutine (addr : UInt16) (budget start : UInt64) : (fuel : Nat) → Run Unit
  | 0 => return
  | fuel + 1 => do
    if (← get).cpu.pc ≠ returnMark then
      let _ ← stepRoutine addr
      if budget < (← get).cpu.totalCycles - start then
        report (.routineOverran addr budget (← get).cpu.pc)
        throw (.routineOverran addr budget)
      runRoutine addr budget start fuel

/-- Call a routine and run it to its end.  Every step takes at least two cycles, so that the budget
ends a routine after half as many steps. -/
def callAt (addr : UInt16) : Run Unit := do
  exec (Exec.call addr returnMark)
  count fun t => { t with routineCalls := t.routineCalls + 1 }
  let budget := (← get).settings.routineCycleBudget
  runRoutine addr budget (← get).cpu.totalCycles (budget.toNat / 2 + 2)

/-- The loaded sound program. -/
def soundProgram : Run SoundProgram := do
  match (← get).program.bind (·.sound) with
  | some sound => return sound
  | none => throw .notSound

/-- The register writes that a sound program may rely on: all channels enabled, no frame
interrupt. -/
def enableSound (a : Sound.Apu) : Sound.Apu := (a.write 0x4015 0x0F).write 0x4017 0x40

/-- Start a track on a cleared machine. -/
def startTrack (track : UInt8) : Run Unit := do
  let sound ← soundProgram
  if sound.tracks ≤ track then throw (.noSuchTrack track sound.tracks)
  onBus fun b =>
    { b with
      ram := Bus.zeroRam
      cartridge := b.cartridge.map fun c => { c with workRam := c.workRam.clear }
      apu := b.apu.reset }
  exec Exec.reset
  modify fun c => { c with haltLogged := false, nmiRequested := false }
  onBus fun b => { b with apu := enableSound b.apu }
  modify fun c => { c with cpu := { c.cpu with a := track, x := 0 } }
  callAt sound.init
  report (.trackStarted track)

/-- Play one frame of the track: call the play routine, then take the sequencer steps of a frame. -/
def advanceTrack : Run Unit := do
  let sound ← soundProgram
  callAt sound.play
  modify fun c => Nat.repeat stepSequencer c.settings.sequencerStepsPerFrame.toNat c
  count fun t => { t with frames := t.frames + 1 }

end Famicom.Console
