import Famicom.Cartridge.Banks
import Famicom.Cartridge.Image

/-!
# The MMC1 board

MMC1 has four five-bit registers behind a serial one.  Each write to the ROM window shifts one bit
in, low bits first; the fifth write stores the gathered value in the register that its address
selects.  A write with bit 7 set empties the serial register.

The serial register carries a marker bit, which starts at bit 4 and reaches bit 0 when four bits are
waiting.
-/

namespace Famicom.Board

/-- The serial register `shift` and the four that it feeds. -/
structure Mmc1 where
  shift : UInt8
  control : UInt8
  chrBank0 : UInt8
  chrBank1 : UInt8
  prgBank : UInt8
  deriving DecidableEq, Repr

namespace Mmc1

/-- The serial register with only the marker in it. -/
def emptyShift : UInt8 := 0x10

/-- The control bits that select a switchable lower and a fixed upper half of the ROM window. -/
def fixedUpperHalf : UInt8 := 0x0C

def powerOn : Mmc1 := ⟨emptyShift, fixedUpperHalf, 0, 0, 0⟩

/-- The units in which program and pattern banks are counted. -/
def prgUnit : Nat := 0x4000
def chrUnit : Nat := 0x1000

/-! ## Serial writes -/

/-- Store a gathered value in the register that an address selects. -/
def store (b : Mmc1) (addr : UInt16) (value : UInt8) : Mmc1 :=
  if addr < 0xA000 then { b with control := value }
  else if addr < 0xC000 then { b with chrBank0 := value }
  else if addr < 0xE000 then { b with chrBank1 := value }
  else { b with prgBank := value }

/-- Shift one bit in, or empty the serial register. -/
def write (b : Mmc1) (addr : UInt16) (value : UInt8) : Mmc1 :=
  if hasBits value 0x80 then { b with shift := emptyShift, control := b.control ||| fixedUpperHalf }
  else
    let shift := (b.shift >>> 1) ||| ((value &&& 0x01) <<< 4)
    if hasBits b.shift 0x01 then { b.store addr shift with shift := emptyShift }
    else { b with shift }

/-! ## Layout -/

/-- The work RAM answers. -/
def workRamEnabled (b : Mmc1) : Bool := !hasBits b.prgBank 0x10

/-- The program bank at an address of the ROM window. -/
def prgBankAt (b : Mmc1) (size : Nat) (addr : UInt16) : Nat :=
  let bank := b.prgBank.toNat % 16
  match b.control.toNat / 4 % 4 with
  | 2 => if addr < 0xC000 then 0 else bank
  | 3 => if addr < 0xC000 then bank else Banks.last size prgUnit
  | _ => bank / 2 * 2 + (if addr < 0xC000 then 0 else 1)

/-- The bank of pattern memory at an address, before it wraps: two windows with a register each, or
one pair of banks for both. -/
def chrBankAt (b : Mmc1) (addr : UInt16) : Nat :=
  let upper := addr &&& 0x1000 != 0
  if hasBits b.control 0x10 then (if upper then b.chrBank1 else b.chrBank0).toNat
  else (b.chrBank0 &&& 0x1E).toNat + (if upper then 1 else 0)

/-- The arrangement of screens. -/
def mirroring (b : Mmc1) : Mirroring :=
  match b.control.toNat % 4 with
  | 0 => .oneScreenLower
  | 1 => .oneScreenUpper
  | 2 => .vertical
  | _ => .horizontal

/-- One line on the state of the board. -/
def describe (b : Mmc1) : String :=
  s!"MMC1 shift=${Hex.byte b.shift} control=${Hex.byte b.control} " ++
    s!"chr=({Hex.byte b.chrBank0},{Hex.byte b.chrBank1}) prg=${Hex.byte b.prgBank}"

end Mmc1

end Famicom.Board
