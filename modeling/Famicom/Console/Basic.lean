import Famicom.Console.Bus
import Famicom.Console.Event
import Famicom.Console.Settings
import Famicom.Cpu.Execute
import Famicom.Snapshot.Basic

/-!
# The console

A console is a processor on a bus, with settings, patches, the identity of the loaded program, a
clock that divides frames, and records for debugging.

Operations of the console are computations in `Console.Run`: they change the console whether or not
they end in an error, so that what an error leaves behind can be talked about.
-/

namespace Famicom

/-- What is known about a loaded program besides its cartridge. -/
structure Program where
  mapper : UInt16
  fingerprint : String
  sound : Option SoundProgram
  battery : Bool
  deriving DecidableEq, Repr

/-- A line that names the program to a person. -/
def Program.title (p : Program) : String :=
  match p.sound with
  | some sound => s!"Sound program ({sound.tracks} tracks, play=${Hex.word sound.play})"
  | none =>
    let name := Board.nameOf p.mapper
    s!"{name} (mapper {p.mapper})"

/-- The position within a frame in cycles, and the sequencer steps and scanlines of the frame that
have passed.  The position is a number without a bound; 32 bits hold it whenever the frame leaves
room in them for the cycles by which an instruction can overrun it. -/
structure FrameProgress where
  position : Nat := 0
  steps : Nat := 0
  lines : Nat := 0
  deriving DecidableEq, Repr

/-- Running totals. -/
structure Totals where
  frames : UInt64 := 0
  cpuSteps : UInt64 := 0
  cpuCycles : UInt64 := 0
  nmis : UInt64 := 0
  irqs : UInt64 := 0
  sequencerSteps : UInt64 := 0
  scanlines : UInt64 := 0
  routineCalls : UInt64 := 0
  deriving DecidableEq, Repr

/-- A console. -/
structure Console where
  cpu : Cpu
  bus : Bus
  settings : Settings
  patches : Patch.Ledger
  program : Option Program
  nmiRequested : Bool
  haltLogged : Bool
  clock : FrameProgress
  totals : Totals
  log : EventLog

namespace Console

/-- A console without a program. -/
def powerOn : Console where
  cpu := .powerOn
  bus := .powerOn
  settings := .standard
  patches := .empty
  program := none
  nmiRequested := false
  haltLogged := false
  clock := {}
  totals := {}
  log := {}

instance : Inhabited Console := ⟨powerOn⟩

/-! ## Errors -/

/-- Why an operation of the console fails. -/
inductive Error
  | noProgram
  | halted (halt : Halt)
  | routineStopped (addr : UInt16) (cause : Error)
  | routineOverran (addr : UInt16) (budget : UInt64)
  | notSound
  | noSuchTrack (track tracks : UInt8)
  | noBattery
  | wrongBatterySize (given expected : Nat)
  | badSettings (cause : Settings.Error)
  | badImage (mapper : UInt16) (cause : Cartridge.Error)
  | badPatch (cause : Patch.Error)
  | wrongVersion (version : UInt32)
  | otherImage (found loaded : String)
  | wrongRamSize (size : Nat)
  | badCartridge (cause : Cartridge.Error)
  deriving DecidableEq, Repr

/-- The wording of an error. -/
def Error.message : Error → String
  | noProgram => "no program loaded"
  | halted halt => halt.describe
  | routineStopped addr cause =>
    let reason := cause.message
    s!"routine at ${Hex.word addr} stopped: {reason}"
  | routineOverran addr budget =>
    s!"routine at ${Hex.word addr} did not return within {budget} cycles"
  | notSound => "loaded image is not a sound program"
  | noSuchTrack track tracks => s!"track {track} out of range, program has {tracks} tracks"
  | noBattery => "loaded image has no battery-backed RAM"
  | wrongBatterySize given expected => s!"battery RAM is {given} bytes, cartridge has {expected}"
  | badSettings cause => cause.message
  | badImage mapper cause => s!"failed to create mapper {mapper}: {cause.message}"
  | badPatch cause => cause.message
  | wrongVersion version => s!"unsupported snapshot version {version}"
  | otherImage found loaded =>
    s!"snapshot belongs to image {found}, loaded image is {loaded}"
  | wrongRamSize size => s!"snapshot RAM is {size} bytes, expected 2048"
  | badCartridge cause => s!"failed to restore mapper state: {cause.message}"

/-! ## Computations -/

/-- An operation that may fail, and changes the console in either case. -/
abbrev Run := ExceptT Error (StateM Console)

/-- The outcome of letting the processor act on the bus. -/
def execOn {α : Type} (act : Exec Bus α) (c : Console) : α × Console :=
  let (a, cpu, bus) := act (c.cpu, c.bus)
  (a, { c with cpu, bus })

/-- Let the processor act on the bus. -/
def exec {m : Type → Type} [MonadStateOf Console m] {α : Type} (act : Exec Bus α) : m α :=
  modifyGet (execOn act)

/-- Record an event. -/
def report (e : Event) : StateM Console Unit :=
  modify fun c => { c with log := c.log.push e }

/-- Change the bus. -/
def onBus (f : Bus → Bus) : StateM Console Unit := modify fun c => { c with bus := f c.bus }

/-- Change the running totals. -/
def count (f : Totals → Totals) : StateM Console Unit :=
  modify fun c => { c with totals := f c.totals }

/-- The cartridge in the console. -/
def cartridge : Run Cartridge := do
  match (← get).bus.cartridge with
  | some c => return c
  | none => throw .noProgram

/-! ## Looking -/

/-- A program can run. -/
def hasProgram (c : Console) : Bool := c.bus.cartridge.isSome

/-- A line that names the loaded program to a person. -/
def title (c : Console) : String :=
  match c.program with
  | some p => p.title
  | none => "No program loaded"

/-- One line on the state of the board. -/
def describeBoard (c : Console) : String :=
  match c.bus.cartridge with
  | some cartridge => cartridge.describe
  | none => "No mapper"

end Console

end Famicom
