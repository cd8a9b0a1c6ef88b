import Famicom.Cartridge.Banks
import Famicom.Cartridge.Image

/-!
# The FFE board

A board of disk copiers, with its registers below the ROM window: a bank register for every 8 KiB of
program ROM and every 1 KiB of pattern memory, and a 16-bit counter of processor cycles that raises
an interrupt when it wraps.
-/

namespace Famicom.Board

/-- The registers and the counter. -/
structure Ffe where
  prgBanks : Vector UInt8 4
  chrBanks : Vector UInt8 8
  mirroring : Mirroring
  irqCounter : UInt16
  irqEnabled : Bool
  irqPending : Bool
  deriving DecidableEq, Repr

namespace Ffe

/-- The units in which program and pattern banks are counted. -/
def prgUnit : Nat := 0x2000
def chrUnit : Nat := 0x0400

/-- At power-on the window shows the first two and the last two banks, as far as their numbers fit
the registers. -/
def powerOn (i : Image) : Ffe :=
  let count := Banks.count i.prg.size prgUnit
  let last := UInt8.ofNat (count - 1)
  { prgBanks := #v[0, UInt8.ofNat (1 % count), if last = 0 then 0 else last - 1, last]
    chrBanks := #v[0, 1, 2, 3, 4, 5, 6, 7]
    mirroring := i.mirroring
    irqCounter := 0
    irqEnabled := false
    irqPending := false }

/-- Write a register. -/
def write (b : Ffe) (addr : UInt16) (value : UInt8) : Ffe :=
  if addr = 0x42FE then
    { b with mirroring := if hasBits value 0x10 then .oneScreenUpper else .oneScreenLower }
  else if addr = 0x42FF then
    { b with mirroring := if hasBits value 0x10 then .horizontal else .vertical }
  else if addr = 0x4501 then { b with irqEnabled := false, irqPending := false }
  else if addr = 0x4502 then { b with irqCounter := wordOf value (highByte b.irqCounter) }
  else if addr = 0x4503 then
    { b with
      irqCounter := wordOf (lowByte b.irqCounter) value
      irqEnabled := true
      irqPending := false }
  else if 0x4504 ≤ addr ∧ addr ≤ 0x4507 then
    { b with prgBanks := b.prgBanks.set (addr.toNat % 4) value (Nat.mod_lt _ (by decide)) }
  else if 0x4510 ≤ addr ∧ addr ≤ 0x4517 then
    { b with chrBanks := b.chrBanks.set (addr.toNat % 8) value (Nat.mod_lt _ (by decide)) }
  else b

/-- Count one processor cycle.  When the counter wraps it raises the interrupt and stops. -/
def tick (b : Ffe) : Ffe :=
  if b.irqEnabled then
    let irqCounter := b.irqCounter + 1
    { b with
      irqCounter
      irqPending := b.irqPending || irqCounter == 0
      irqEnabled := irqCounter != 0 }
  else b

/-- The program bank at an address of the ROM window. -/
def prgBankAt (b : Ffe) (addr : UInt16) : Nat :=
  b.prgBanks[addr.toNat / 0x2000 % 4].toNat

/-- The bank of pattern memory at an address, before it wraps. -/
def chrBankAt (b : Ffe) (addr : UInt16) : Nat :=
  b.chrBanks[addr.toNat / 0x400 % 8].toNat

/-- Bytes in brackets. -/
def listed (bytes : List UInt8) : String := "[" ++ ", ".intercalate (bytes.map Hex.byte) ++ "]"

/-- One line on the state of the board. -/
def describe (b : Ffe) : String :=
  s!"FFE prg={listed b.prgBanks.toList} chr={listed b.chrBanks.toList} " ++
    s!"irq_counter=${Hex.word b.irqCounter} en={b.irqEnabled} pending={b.irqPending}"

end Ffe

end Famicom.Board
