import Famicom.Cartridge.Basic
import Famicom.Cpu.AddressSpace
import Famicom.Sound.Apu

/-!
# The bus

The bus decodes the processor's addresses: 2 KiB of RAM that repeats four times, the registers of
the picture unit, which reads as zero here, the audio unit and other input and output, and from
`$4020` on the cartridge.  It counts the accesses to each region.
-/

namespace Famicom

/-- Accesses to one region. -/
structure Tally where
  reads : UInt64 := 0
  writes : UInt64 := 0
  deriving DecidableEq, Repr

namespace Tally

/-- Count a read. -/
def read (t : Tally) : Tally := { t with reads := t.reads + 1 }

/-- Count a write. -/
def write (t : Tally) : Tally := { t with writes := t.writes + 1 }

end Tally

/-- The parts of the processor's address space. -/
inductive Region
  | ram
  | picture
  | audio
  | cartridge
  deriving DecidableEq, Repr

/-- The part that an address lies in. -/
def Region.of (addr : UInt16) : Region :=
  if addr < 0x2000 then .ram
  else if addr < 0x4000 then .picture
  else if addr < 0x4020 then .audio
  else .cartridge

/-- Accesses by region; pattern memory is accessed by the picture unit, not by the processor. -/
structure Counters where
  ram : Tally := {}
  picture : Tally := {}
  audio : Tally := {}
  cartridge : Tally := {}
  pattern : Tally := {}
  deriving DecidableEq, Repr

/-- Count an access to a region. -/
def Counters.count (c : Counters) (region : Region) (f : Tally → Tally) : Counters :=
  match region with
  | .ram => { c with ram := f c.ram }
  | .picture => { c with picture := f c.picture }
  | .audio => { c with audio := f c.audio }
  | .cartridge => { c with cartridge := f c.cartridge }

/-- The address space of the console. -/
structure Bus where
  ram : Vector UInt8 2048
  apu : Sound.Apu
  cartridge : Option Cartridge
  counters : Counters

namespace Bus

/-- Cleared RAM. -/
def zeroRam : Vector UInt8 2048 := Vector.replicate 2048 0

/-- Nothing attached. -/
def powerOn : Bus := ⟨zeroRam, .powerOn, none, {}⟩

/-- The cell of RAM that an address names. -/
def ramCell (addr : UInt16) : Fin 2048 := ⟨addr.toNat % 2048, Nat.mod_lt _ (by decide)⟩

/-- The register of the audio unit that can be read. -/
def statusRegister : UInt16 := 0x4015

/-! ## The processor's accesses -/

/-- Count an access of the processor. -/
def count (b : Bus) (addr : UInt16) (f : Tally → Tally) : Bus :=
  { b with counters := b.counters.count (.of addr) f }

/-- Read a byte, without counting. -/
def fetch (addr : UInt16) (b : Bus) : UInt8 × Bus :=
  match Region.of addr with
  | .ram => (b.ram[ramCell addr], b)
  | .picture => (0, b)
  | .audio =>
    if addr = statusRegister then
      let (value, apu) := b.apu.readStatus
      (value, { b with apu })
    else (0, b)
  | .cartridge =>
    match b.cartridge with
    | some c => (c.read addr, b)
    | none => (0, b)

/-- Write a byte, without counting. -/
def store (addr : UInt16) (value : UInt8) (b : Bus) : Bus :=
  match Region.of addr with
  | .ram => { b with ram := b.ram.set (ramCell addr) value }
  | .picture => b
  | .audio => { b with apu := b.apu.write addr value }
  | .cartridge => { b with cartridge := b.cartridge.map (·.write addr value) }

instance : AddressSpace Bus where
  read addr b := fetch addr (b.count addr Tally.read)
  write addr value b := store addr value (b.count addr Tally.write)

/-! ## The picture unit's accesses -/

/-- Fetch a byte of pattern memory for the picture unit.  The board watches the fetch and reacts
after it. -/
def chrRead (addr : UInt16) (b : Bus) : UInt8 × Bus :=
  let b := { b with counters := { b.counters with pattern := b.counters.pattern.read } }
  let addr := addr &&& 0x1FFF
  match b.cartridge with
  | some c => (c.chrRead addr, { b with cartridge := some (c.observe addr) })
  | none => (0, b)

/-- Write a byte of pattern memory. -/
def chrWrite (addr : UInt16) (value : UInt8) (b : Bus) : Bus :=
  let b := { b with counters := { b.counters with pattern := b.counters.pattern.write } }
  { b with cartridge := b.cartridge.map (·.chrWrite (addr &&& 0x1FFF) value) }

/-! ## Interrupts and clocks -/

/-- The interrupt line, which the audio unit and the cartridge share. -/
def irqLine (b : Bus) : Bool := b.apu.irqPending || b.cartridge.any (·.board.irqPending)

/-- Processor cycles have passed. -/
def tick (b : Bus) (cycles : Nat) : Bus := { b with cartridge := b.cartridge.map (·.ticks cycles) }

/-- A scanline has passed. -/
def clockScanline (b : Bus) : Bus := { b with cartridge := b.cartridge.map (·.clockScanline) }

/-- Plug a cartridge in, in place of any other. -/
def attach (b : Bus) (c : Cartridge) : Bus := { b with cartridge := some c }

/-- Clear the RAM. -/
def clearRam (b : Bus) : Bus := { b with ram := zeroRam }

/-- Start counting accesses anew. -/
def clearCounters (b : Bus) : Bus := { b with counters := {} }

end Bus

end Famicom
