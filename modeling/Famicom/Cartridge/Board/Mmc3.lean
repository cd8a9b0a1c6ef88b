import Famicom.Cartridge.Banks
import Famicom.Cartridge.Image

/-!
# The MMC3 board

MMC3 has eight bank registers, six for pattern memory and two for program ROM, and a scanline
counter that raises an interrupt.  The counter is clocked when address line 12 of the pattern bus
rises after it has been low for at least eight fetches, or by the host once a scanline.
-/

namespace Famicom.Board

/-- The registers, the scanline counter and the filter on address line 12. -/
structure Mmc3.Registers where
  bankSelect : UInt8
  banks : Vector UInt8 8
  mirroring : Mirroring
  workRamEnabled : Bool
  workRamProtected : Bool
  irqLatch : UInt8
  irqCounter : UInt8
  irqReload : Bool
  irqEnabled : Bool
  irqPending : Bool
  lastA12 : Bool
  a12LowReads : UInt8
  deriving DecidableEq, Repr

/-- The board; with four screens its mirroring register has no effect. -/
structure Mmc3 where
  fourScreen : Bool
  regs : Mmc3.Registers
  deriving DecidableEq, Repr

namespace Mmc3

def powerOn (i : Image) : Mmc3 where
  fourScreen := i.fourScreen
  regs := {
    bankSelect := 0
    banks := #v[0, 2, 4, 5, 6, 7, 0, 1]
    mirroring := i.mirroring
    workRamEnabled := true
    workRamProtected := false
    irqLatch := 0
    irqCounter := 0
    irqReload := false
    irqEnabled := false
    irqPending := false
    lastA12 := false
    a12LowReads := 0 }

/-- The units in which program and pattern banks are counted. -/
def prgUnit : Nat := 0x2000
def chrUnit : Nat := 0x0400

/-- The fetches with address line 12 low that have to precede a rise for it to count. -/
def filterReads : UInt8 := 8

/-! ## The scanline counter -/

namespace Registers

/-- Clock the scanline counter: reload it at zero or on request, else count down; at zero the
interrupt is raised if enabled. -/
def clockCounter (r : Registers) : Registers :=
  let counter := if r.irqCounter = 0 || r.irqReload then r.irqLatch else r.irqCounter - 1
  { r with
    irqCounter := counter
    irqReload := false
    irqPending := r.irqPending || (counter == 0 && r.irqEnabled) }

/-- Watch address line 12 at a fetch. -/
def observe (r : Registers) (addr : UInt16) : Registers :=
  if addr &&& 0x1000 = 0 then
    { r with
      lastA12 := false
      a12LowReads := if r.a12LowReads = 0xFF then 0xFF else r.a12LowReads + 1 }
  else
    let clocked := if !r.lastA12 && filterReads ≤ r.a12LowReads then r.clockCounter else r
    { clocked with lastA12 := true, a12LowReads := 0 }

/-! ## Register writes -/

/-- The value that a bank register keeps: 2 KiB pattern banks are even, program banks have six
bits. -/
def keptBank (target : Nat) (value : UInt8) : UInt8 :=
  if target < 2 then value &&& 0xFE else if target < 6 then value else value &&& 0x3F

/-- Write the register that an address of the ROM window selects. -/
def write (r : Registers) (addr : UInt16) (value : UInt8) : Registers :=
  let even := addr &&& 1 == 0
  if addr < 0xA000 then
    if even then { r with bankSelect := value }
    else
      let target := r.bankSelect.toNat % 8
      { r with banks := r.banks.set target (keptBank target value) (Nat.mod_lt _ (by decide)) }
  else if addr < 0xC000 then
    if even then { r with mirroring := if hasBits value 0x01 then .horizontal else .vertical }
    else { r with
      workRamEnabled := hasBits value 0x80
      workRamProtected := hasBits value 0x40 }
  else if addr < 0xE000 then
    if even then { r with irqLatch := value } else { r with irqCounter := 0, irqReload := true }
  else if even then { r with irqEnabled := false, irqPending := false }
  else { r with irqEnabled := true }

end Registers

/-! ## Layout -/

/-- The program bank at an address of the ROM window.  The last bank is fixed; the one before it
and bank register 6 can trade places. -/
def prgBankAt (b : Mmc3) (size : Nat) (addr : UInt16) : Nat :=
  let secondLast := Banks.count size prgUnit - 2
  let swapped := hasBits b.regs.bankSelect 0x40
  if addr < 0xA000 then if swapped then secondLast else b.regs.banks[6].toNat
  else if addr < 0xC000 then b.regs.banks[7].toNat
  else if addr < 0xE000 then if swapped then b.regs.banks[6].toNat else secondLast
  else Banks.last size prgUnit

/-- The 1 KiB slot of pattern memory at an address; bit 7 of the bank select register makes the
halves trade places. -/
def chrSlot (b : Mmc3) (addr : UInt16) : Nat :=
  let slot := addr.toNat % 0x2000 / 0x400
  if hasBits b.regs.bankSelect 0x80 then (slot + 4) % 8 else slot

/-- The bank of pattern memory at an address, before it wraps. -/
def chrBankAt (b : Mmc3) (addr : UInt16) : Nat :=
  match b.chrSlot addr with
  | 0 => (b.regs.banks.get 0).toNat
  | 1 => (b.regs.banks.get 0).toNat + 1
  | 2 => (b.regs.banks.get 1).toNat
  | 3 => (b.regs.banks.get 1).toNat + 1
  | 4 => (b.regs.banks.get 2).toNat
  | 5 => (b.regs.banks.get 3).toNat
  | 6 => (b.regs.banks.get 4).toNat
  | _ => (b.regs.banks.get 5).toNat

/-- The arrangement of screens. -/
def mirroring (b : Mmc3) : Mirroring := if b.fourScreen then .fourScreen else b.regs.mirroring

/-- One line on the state of the board. -/
def describe (b : Mmc3) : String :=
  let r := b.regs
  let chr := ",".intercalate ((r.banks.toList.take 6).map Hex.byte)
  s!"MMC3 bank_select=${Hex.byte r.bankSelect} " ++
    s!"prg=[{Hex.byte r.banks[6]},{Hex.byte r.banks[7]}] chr=[{chr}] " ++
    s!"irq_latch=${Hex.byte r.irqLatch} irq_counter=${Hex.byte r.irqCounter} " ++
    s!"reload={r.irqReload} en={r.irqEnabled} pending={r.irqPending}"

end Mmc3

end Famicom.Board
