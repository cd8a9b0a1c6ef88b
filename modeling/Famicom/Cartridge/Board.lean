import Famicom.Cartridge.Board.Discrete
import Famicom.Cartridge.Board.Ffe
import Famicom.Cartridge.Board.Fixed
import Famicom.Cartridge.Board.Mmc1
import Famicom.Cartridge.Board.Mmc2
import Famicom.Cartridge.Board.Mmc3
import Famicom.Cartridge.Board.Wide

/-!
# Boards

A board is the hardware of a cartridge apart from its memory: bank registers, interrupt counters
and the wiring that decides which part of memory an address shows.  `Board` joins the families, and
the functions here say of any board what the processor and the picture unit can observe of it.

`Registers` is the changeable part of a board, which saved states hold.
-/

namespace Famicom

/-- A board with its registers. -/
inductive Board
  | fixed (b : Board.Fixed)
  | discrete (b : Board.Discrete)
  | mmc1 (b : Board.Mmc1)
  | mmc3 (b : Board.Mmc3)
  | mmc2 (b : Board.Mmc2)
  | wide (b : Board.Wide)
  | ffe (b : Board.Ffe)
  deriving DecidableEq, Repr

namespace Board

/-! ## Choosing a board -/

/-- The name of the board that a mapper number stands for. -/
def nameOf (mapper : UInt16) : String :=
  match mapper with
  | 0 => "NROM"
  | 1 => "MMC1"
  | 2 => "UxROM"
  | 3 => "CNROM"
  | 4 => "MMC3"
  | 7 => "AxROM"
  | 9 => "MMC2"
  | 10 => "MMC4"
  | 11 => "Color Dreams"
  | 17 => "FFE F8xxx"
  | 66 => "GxROM"
  | _ => "Unsupported (fixed fallback)"

/-- The mapper number stands for a board that is known. -/
def isKnown (mapper : UInt16) : Bool :=
  [0, 1, 2, 3, 4, 7, 9, 10, 11, 17, 66].contains mapper

/-- The board that an image asks for, at power-on.  Unknown numbers get the board without
registers. -/
def powerOn (i : Image) : Board :=
  match i.mapper with
  | 1 => .mmc1 .powerOn
  | 2 => .discrete (.powerOn .uxrom i)
  | 3 => .discrete (.powerOn .cnrom i)
  | 4 => .mmc3 (.powerOn i)
  | 7 => .wide (.powerOn .axrom i)
  | 9 => .mmc2 (.powerOn .mmc2 i)
  | 10 => .mmc2 (.powerOn .mmc4 i)
  | 11 => .wide (.powerOn .colorDreams i)
  | 17 => .ffe (.powerOn i)
  | 66 => .wide (.powerOn .gxrom i)
  | _ => .fixed (.ofImage i)

/-! ## Program ROM -/

/-- The size of the banks in which program ROM is counted. -/
def prgUnit : Board → Nat
  | fixed _ => Fixed.prgUnit
  | discrete b => b.prgUnit
  | mmc1 _ => Mmc1.prgUnit
  | mmc3 _ => Mmc3.prgUnit
  | mmc2 b => b.prgUnit
  | wide _ => Wide.prgUnit
  | ffe _ => Ffe.prgUnit

/-- The offset in a program ROM of the given size that an address shows; nothing below the ROM
window, and nothing outside a sound program. -/
def prgOffset? (board : Board) (size : Nat) (addr : UInt16) : Option Nat :=
  if addr < Image.romStart then none
  else match board with
    | fixed b => b.prgOffset? size addr
    | discrete b => some (Banks.offset size b.prgUnit (b.prgBank size addr) addr)
    | mmc1 b => some (Banks.offset size Mmc1.prgUnit (b.prgBankAt size addr) addr)
    | mmc3 b => some (Banks.offset size Mmc3.prgUnit (b.prgBankAt size addr) addr)
    | mmc2 b => some (Banks.offset size b.prgUnit (b.prgBankAt size addr) addr)
    | wide b => some (Banks.offset size Wide.prgUnit b.regs.prgBank.toNat addr)
    | ffe b => some (Banks.offset size Ffe.prgUnit (b.prgBankAt addr) addr)

/-! ## Pattern memory -/

/-- The size of the banks in which pattern memory is counted. -/
def chrUnit : Board → Nat
  | fixed _ => 0x2000
  | discrete _ => 0x2000
  | mmc1 _ => Mmc1.chrUnit
  | mmc3 _ => Mmc3.chrUnit
  | mmc2 _ => Mmc2.chrUnit
  | wide _ => Wide.chrUnit
  | ffe _ => Ffe.chrUnit

/-- The bank of pattern memory that an address asks for, before it wraps. -/
def chrSelect (board : Board) (addr : UInt16) : Nat :=
  match board with
  | fixed _ => 0
  | discrete b => b.chrBank
  | mmc1 b => b.chrBankAt addr
  | mmc3 b => b.chrBankAt addr
  | mmc2 b => b.chrBankAt addr
  | wide b => b.regs.chrBank.toNat
  | ffe b => b.chrBankAt addr

/-- The bank of a pattern memory of the given size that an address shows. -/
def chrBank (board : Board) (size : Nat) (addr : UInt16) : Nat :=
  board.chrSelect addr % Banks.count size board.chrUnit

/-- The offset in a pattern memory of the given size that an address shows.  The board without
registers passes the whole address on. -/
def chrOffset (board : Board) (size : Nat) (addr : UInt16) : Nat :=
  match board with
  | fixed _ => addr.toNat % size
  | _ => Banks.offset size board.chrUnit (board.chrBank size addr) addr

/-! ## Work RAM and screens -/

/-- Work RAM can be read. -/
def workRamReadable : Board → Bool
  | mmc1 b => b.workRamEnabled
  | mmc3 b => b.regs.workRamEnabled
  | _ => true

/-- Work RAM can be written. -/
def workRamWritable : Board → Bool
  | mmc1 b => b.workRamEnabled
  | mmc3 b => b.regs.workRamEnabled && !b.regs.workRamProtected
  | _ => true

/-- The arrangement of screens. -/
def mirroring : Board → Mirroring
  | fixed b => b.mirroring
  | discrete b => b.mirroring
  | mmc1 b => b.mirroring
  | mmc3 b => b.mirroring
  | mmc2 b => b.regs.mirroring
  | wide b => b.regs.mirroring
  | ffe b => b.mirroring

/-! ## Events -/

/-- Write a register behind an address of the ROM window. -/
def writeWindow (board : Board) (addr : UInt16) (value : UInt8) : Board :=
  match board with
  | discrete b => .discrete (b.write value)
  | mmc1 b => .mmc1 (b.write addr value)
  | mmc3 b => .mmc3 { b with regs := b.regs.write addr value }
  | mmc2 b => .mmc2 { b with regs := b.regs.write addr value }
  | wide b => .wide (b.write value)
  | fixed b => .fixed b
  | ffe b => .ffe b

/-- Write a register; addresses that the board does not decode do nothing.  All boards but one have
their registers behind the ROM window. -/
def write (board : Board) (addr : UInt16) (value : UInt8) : Board :=
  match board with
  | ffe b => .ffe (b.write addr value)
  | board => if addr < Image.romStart then board else board.writeWindow addr value

/-- Watch a fetch of the picture unit. -/
def observe (board : Board) (addr : UInt16) : Board :=
  match board with
  | mmc3 b => .mmc3 { b with regs := b.regs.observe addr }
  | mmc2 b => .mmc2 (b.observe addr)
  | board => board

/-- A scanline has passed, for hosts that do not show their fetches. -/
def clockScanline : Board → Board
  | mmc3 b => .mmc3 { b with regs := b.regs.clockCounter }
  | board => board

/-- A processor cycle has passed. -/
def tick : Board → Board
  | ffe b => .ffe b.tick
  | board => board

/-- The board asks for an interrupt. -/
def irqPending : Board → Bool
  | mmc3 b => b.regs.irqPending
  | ffe b => b.irqPending
  | _ => false

/-! ## Saving and describing -/

/-- The changeable part of a board. -/
inductive Registers
  | fixed
  | discrete (r : Discrete.Registers)
  | mmc1 (r : Mmc1)
  | mmc3 (r : Mmc3.Registers)
  | mmc2 (r : Mmc2.Registers)
  | wide (r : Wide.Registers)
  | ffe (r : Ffe)
  deriving DecidableEq, Repr

/-- The name of a kind of registers in saved states. -/
def Registers.kind : Registers → String
  | fixed => "fixed"
  | discrete _ => "discrete"
  | mmc1 _ => "shift_register"
  | mmc3 _ => "multi_bank_irq"
  | mmc2 _ => "latch_chr"
  | wide _ => "single_register"
  | ffe _ => "counter_irq"

/-- The registers of a board. -/
def registers : Board → Registers
  | fixed _ => .fixed
  | discrete b => .discrete b.regs
  | mmc1 b => .mmc1 b
  | mmc3 b => .mmc3 b.regs
  | mmc2 b => .mmc2 b.regs
  | wide b => .wide b.regs
  | ffe b => .ffe b

/-- Put registers of the board's own kind into it. -/
def install? (board : Board) (r : Registers) : Option Board :=
  match board, r with
  | fixed b, .fixed => some (.fixed b)
  | discrete b, .discrete regs => some (.discrete { b with regs })
  | mmc1 _, .mmc1 regs => some (.mmc1 regs)
  | mmc3 b, .mmc3 regs => some (.mmc3 { b with regs })
  | mmc2 b, .mmc2 regs => some (.mmc2 { b with regs })
  | wide b, .wide regs => some (.wide { b with regs })
  | ffe _, .ffe regs => some (.ffe regs)
  | _, _ => none

theorem install?_registers (board : Board) : board.install? board.registers = some board := by
  cases board <;> rfl

/-! Registers say nothing about which registers fit, and what play does to a board changes only
its registers. -/

theorem install?_install? {board installed : Board} {r : Registers}
    (h : board.install? r = some installed) (q : Registers) :
    installed.install? q = board.install? q := by
  cases board <;> cases r <;> cases h <;> cases q <;> rfl

theorem install?_writeWindow (board : Board) (addr : UInt16) (value : UInt8) (r : Registers) :
    (board.writeWindow addr value).install? r = board.install? r := by
  cases board <;> cases r <;> rfl

theorem install?_write (board : Board) (addr : UInt16) (value : UInt8) (r : Registers) :
    (board.write addr value).install? r = board.install? r := by
  unfold write
  split
  · cases r <;> rfl
  · split
    · rfl
    · exact install?_writeWindow ..

theorem install?_clockScanline (board : Board) (r : Registers) :
    board.clockScanline.install? r = board.install? r := by
  cases board <;> cases r <;> rfl

theorem install?_tick (board : Board) (r : Registers) :
    board.tick.install? r = board.install? r := by
  cases board <;> cases r <;> rfl

theorem install?_observe (board : Board) (addr : UInt16) (r : Registers) :
    (board.observe addr).install? r = board.install? r := by
  cases board with
  | mmc2 b =>
    change (Board.mmc2 (b.observe addr)).install? r = (Board.mmc2 b).install? r
    unfold Mmc2.observe
    split <;> cases r <;> rfl
  | _ => cases r <;> rfl

/-- One line on the state of the board of a cartridge with a program ROM of the given size. -/
def describe (board : Board) (prgSize : Nat) : String :=
  match board with
  | fixed b => b.describe prgSize
  | discrete b => b.describe
  | mmc1 b => b.describe
  | mmc3 b => b.describe
  | mmc2 b => b.describe
  | wide b => b.describe prgSize
  | ffe b => b.describe

end Board

end Famicom
