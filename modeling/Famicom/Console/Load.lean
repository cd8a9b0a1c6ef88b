import Famicom.Console.Basic

/-!
# Loading and resetting

Loading an image puts its cartridge on the bus and starts the program from its reset vector.  Work
RAM that a battery keeps can be taken out and put back in.
-/

namespace Famicom.Console

/-- Restart the loaded program.  Without a program nothing happens.  RAM keeps its contents. -/
def reset : StateM Console Unit := do
  if (← get).hasProgram then
    onBus fun b => { b with apu := b.apu.reset }.clearCounters
    exec Exec.reset
    modify fun c => { c with
      nmiRequested := false
      haltLogged := false
      clock := {}
      totals := {}
      log := {} }
    report (.reset (← get).cpu.pc)

/-- Load an image and start it. -/
def load (i : Image) : Run Unit := do
  match Cartridge.ofImage i with
  | .error e => throw (.badImage i.mapper e)
  | .ok cartridge =>
    onBus fun b => (b.attach cartridge).clearRam
    let program : Program := {
      mapper := i.mapper
      fingerprint := i.fingerprint
      sound := i.sound
      battery := i.battery }
    modify fun c => { c with patches := .empty, program := some program }
    reset
    report (.loaded program.title)
    if !Board.isKnown i.mapper then report (.unknownMapper i.mapper)

/-- Use other settings, from the start of a frame. -/
def applySettings (s : Settings) : Run Unit := do
  match s.fault? with
  | some e => throw (.badSettings e)
  | none =>
    onBus fun b => { b with apu := (b.apu.withSampleRate s.sampleRate).withMixing s.mixing }
    modify fun c => { c with settings := s, clock := {} }

/-- A console without a program and with the given settings. -/
def withSettings (s : Settings) : Except Error Console :=
  match (applySettings s).run powerOn with
  | (.ok (), c) => return c
  | (.error e, _) => throw e

/-! ## Battery-backed RAM -/

/-- The loaded program has RAM that a battery keeps. -/
def batteryBacked (c : Console) : Bool := c.program.any (·.battery)

/-- The work RAM to keep between sessions. -/
def batteryRam? (c : Console) : Option (Array UInt8) :=
  if c.batteryBacked then c.bus.cartridge.map (·.workRam.bytes) else none

/-- Put kept work RAM back. -/
def putBatteryRam (data : Array UInt8) : Run Unit := do
  if !(← get).batteryBacked then throw .noBattery
  let c ← cartridge
  match c.workRam.replace? data with
  | none => throw (.wrongBatterySize data.size c.workRam.size)
  | some workRam =>
    onBus (·.attach { c with workRam })
    report (.batteryLoaded data.size)

end Famicom.Console
