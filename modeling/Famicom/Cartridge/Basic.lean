import Famicom.Cartridge.Arena
import Famicom.Cartridge.Board

/-!
# Cartridges

A cartridge is a board and the memory behind it: program ROM, pattern memory, which is ROM or RAM,
and work RAM at `$6000-$7FFF`.  The board decides which byte an access means; no access leaves its
arena, since arenas wrap.

A `Cartridge.State` holds what play can change: the board's registers and the contents of the RAM.
-/

namespace Famicom

/-- A board and its memory. -/
structure Cartridge where
  board : Board
  prg : Arena
  chr : Arena
  chrIsRam : Bool
  workRam : Arena

namespace Cartridge

/-- Why a cartridge refuses an image or a saved state. -/
inductive Error
  | emptyPrg
  | wrongRegisters (found expected : Board.Registers)
  | wrongWorkRam (found expected : Nat)
  | wrongChrRam (found expected : Nat)
  deriving DecidableEq, Repr

/-- The wording of an error. -/
def Error.message : Error → String
  | emptyPrg => "cannot map an empty PRG image"
  | wrongRegisters found expected =>
    s!"snapshot holds {found.kind} mapper registers, loaded mapper is {expected.kind}"
  | wrongWorkRam found expected => s!"snapshot work RAM is {found} bytes, cartridge has {expected}"
  | wrongChrRam found expected => s!"snapshot CHR RAM is {found} bytes, cartridge has {expected}"

/-- A cartridge made from an image, at power-on. -/
def ofImage (i : Image) : Except Error Cartridge :=
  if h : 0 < i.prg.size then
    return {
      board := .powerOn i
      prg := ⟨i.prg, h⟩
      chr := .ofBytes i.chr Image.chrRamSize
      chrIsRam := i.chrIsRam
      workRam := .zeros (max i.workRamSize Image.minWorkRam) }
  else throw .emptyPrg

/-! ## The processor's side -/

/-- An address of the work RAM. -/
def isWorkRam (addr : UInt16) : Bool := 0x6000 ≤ addr && addr < 0x8000

/-- The index in work RAM of one of its addresses. -/
def workRamIndex (addr : UInt16) : Nat := addr.toNat - 0x6000

/-- The offset in program ROM that an address shows. -/
def prgOffset? (c : Cartridge) (addr : UInt16) : Option Nat := c.board.prgOffset? c.prg.size addr

/-- The number of the program bank that an address shows. -/
def prgBank? (c : Cartridge) (addr : UInt16) : Option Nat :=
  (c.prgOffset? addr).map (· / c.board.prgUnit)

/-- The byte that the processor reads; zero where nothing answers. -/
def read (c : Cartridge) (addr : UInt16) : UInt8 :=
  if isWorkRam addr then
    if c.board.workRamReadable then c.workRam.get (workRamIndex addr) else 0
  else match c.prgOffset? addr with
    | some offset => c.prg.get offset
    | none => 0

/-- A write of the processor: to work RAM, or to a register of the board. -/
def write (c : Cartridge) (addr : UInt16) (value : UInt8) : Cartridge :=
  if isWorkRam addr then
    if c.board.workRamWritable then
      { c with workRam := c.workRam.set (workRamIndex addr) value }
    else c
  else { c with board := c.board.write addr value }

/-! ## The picture unit's side -/

/-- The number of the pattern bank that an address shows. -/
def chrBank (c : Cartridge) (addr : UInt16) : Nat := c.board.chrBank c.chr.size addr

/-- The offset in pattern memory that an address shows. -/
def chrOffset (c : Cartridge) (addr : UInt16) : Nat := c.board.chrOffset c.chr.size addr

/-- The byte of pattern memory at an address. -/
def chrRead (c : Cartridge) (addr : UInt16) : UInt8 := c.chr.get (c.chrOffset addr)

/-- Write pattern memory, if it is RAM. -/
def chrWrite (c : Cartridge) (addr : UInt16) (value : UInt8) : Cartridge :=
  if c.chrIsRam then { c with chr := c.chr.set (c.chrOffset addr) value } else c

/-! ## Events -/

/-- Let the board watch a fetch of the picture unit. -/
def observe (c : Cartridge) (addr : UInt16) : Cartridge := { c with board := c.board.observe addr }

/-- A scanline has passed. -/
def clockScanline (c : Cartridge) : Cartridge := { c with board := c.board.clockScanline }

/-- A processor cycle has passed. -/
def tick (c : Cartridge) : Cartridge := { c with board := c.board.tick }

/-- A number of processor cycles have passed. -/
def ticks : Nat → Cartridge → Cartridge
  | 0, c => c
  | n + 1, c => ticks n c.tick

/-! ## Saving and restoring -/

/-- What play can change in a cartridge.  Pattern ROM is not saved. -/
structure State where
  registers : Board.Registers
  workRam : Array UInt8
  chrRam : Array UInt8
  deriving DecidableEq, Repr

/-- The present state. -/
def save (c : Cartridge) : State :=
  ⟨c.board.registers, c.workRam.bytes, if c.chrIsRam then c.chr.bytes else #[]⟩

/-- Put a saved state into the cartridge.  Registers have to be of the board's kind and memory of
the cartridge's size. -/
def restore (c : Cartridge) (s : State) : Except Error Cartridge :=
  match c.board.install? s.registers with
  | none => throw (.wrongRegisters s.registers c.board.registers)
  | some board =>
    match c.workRam.replace? s.workRam with
    | none => throw (.wrongWorkRam s.workRam.size c.workRam.size)
    | some workRam =>
      if c.chrIsRam then
        match c.chr.replace? s.chrRam with
        | none => throw (.wrongChrRam s.chrRam.size c.chr.size)
        | some chr => return { c with board, workRam, chr }
      else return { c with board, workRam }

/-- One line on the state of the board. -/
def describe (c : Cartridge) : String := c.board.describe c.prg.size

end Cartridge

end Famicom
