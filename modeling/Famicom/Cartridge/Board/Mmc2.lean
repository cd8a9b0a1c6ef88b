import Famicom.Cartridge.Banks
import Famicom.Cartridge.Image

/-!
# The MMC2 and MMC4 boards

These boards switch pattern banks by what the picture unit fetches.  Each half of pattern memory has
a latch and two bank registers; fetching one of two marker tiles sets the latch to FD or FE, and the
register of that name is shown from the next fetch on.  The boards differ in the addresses of the
markers in the lower half and in their program banks.
-/

namespace Famicom.Board

/-- The boards of this family. -/
inductive Mmc2.Model
  | mmc2
  | mmc4
  deriving DecidableEq, Repr

/-- The registers and latches. -/
structure Mmc2.Registers where
  prgBank : UInt8
  lowerFd : UInt8
  lowerFe : UInt8
  upperFd : UInt8
  upperFe : UInt8
  lowerIsFe : Bool
  upperIsFe : Bool
  mirroring : Mirroring
  deriving DecidableEq, Repr

/-- A board of this family. -/
structure Mmc2 where
  model : Mmc2.Model
  regs : Mmc2.Registers
  deriving DecidableEq, Repr

namespace Mmc2

def powerOn (model : Model) (i : Image) : Mmc2 := ⟨model, 0, 0, 0, 0, 0, true, true, i.mirroring⟩

/-- The unit in which program banks are counted. -/
def prgUnit (b : Mmc2) : Nat :=
  match b.model with
  | .mmc2 => 0x2000
  | .mmc4 => 0x4000

/-- The unit in which pattern banks are counted. -/
def chrUnit : Nat := 0x1000

/-! ## Registers and latches -/

/-- Write the register that an address selects. -/
def Registers.write (r : Registers) (addr : UInt16) (value : UInt8) : Registers :=
  if addr < 0xA000 then r
  else if addr < 0xB000 then { r with prgBank := value &&& 0x0F }
  else if addr < 0xC000 then { r with lowerFd := value &&& 0x1F }
  else if addr < 0xD000 then { r with lowerFe := value &&& 0x1F }
  else if addr < 0xE000 then { r with upperFd := value &&& 0x1F }
  else if addr < 0xF000 then { r with upperFe := value &&& 0x1F }
  else { r with mirroring := if hasBits value 0x01 then .horizontal else .vertical }

/-- What a fetch does to the latches. -/
inductive Trigger
  | lower (isFe : Bool)
  | upper (isFe : Bool)
  deriving DecidableEq, Repr

/-- The latch that a fetch at a pattern address sets, if any. -/
def trigger? (model : Model) (addr : UInt16) : Option Trigger :=
  let addr := addr.toNat % 0x2000
  let lowerWidth := match model with
    | .mmc2 => 1
    | .mmc4 => 8
  if 0x0FD8 ≤ addr ∧ addr < 0x0FD8 + lowerWidth then some (.lower false)
  else if 0x0FE8 ≤ addr ∧ addr < 0x0FE8 + lowerWidth then some (.lower true)
  else if 0x1FD8 ≤ addr ∧ addr < 0x1FE0 then some (.upper false)
  else if 0x1FE8 ≤ addr ∧ addr < 0x1FF0 then some (.upper true)
  else none

/-- Set the latch that a fetch triggers. -/
def observe (b : Mmc2) (addr : UInt16) : Mmc2 :=
  match trigger? b.model addr with
  | some (.lower isFe) => { b with regs := { b.regs with lowerIsFe := isFe } }
  | some (.upper isFe) => { b with regs := { b.regs with upperIsFe := isFe } }
  | none => b

/-! ## Layout -/

/-- The program bank at an address of the ROM window: the lowest window is switchable, the others
show the end of the ROM. -/
def prgBankAt (b : Mmc2) (size : Nat) (addr : UInt16) : Nat :=
  match b.model with
  | .mmc2 =>
    let count := Banks.count size b.prgUnit
    if addr < 0xA000 then b.regs.prgBank.toNat
    else if addr < 0xC000 then count - 3
    else if addr < 0xE000 then count - 2
    else count - 1
  | .mmc4 => if addr < 0xC000 then b.regs.prgBank.toNat else Banks.last size b.prgUnit

/-- The bank of pattern memory at an address, before it wraps. -/
def chrBankAt (b : Mmc2) (addr : UInt16) : Nat :=
  let r := b.regs
  if addr &&& 0x1000 = 0 then (if r.lowerIsFe then r.lowerFe else r.lowerFd).toNat
  else (if r.upperIsFe then r.upperFe else r.upperFd).toNat

/-- The name of a board in descriptions. -/
def Model.name : Model → String
  | mmc2 => "Mmc2"
  | mmc4 => "Mmc4"

/-- One line on the state of the board. -/
def describe (b : Mmc2) : String :=
  let r := b.regs
  s!"{b.model.name} prg=${Hex.byte r.prgBank} " ++
    s!"latch0_fe={r.lowerIsFe} latch1_fe={r.upperIsFe} " ++
    s!"chr_fd=({Hex.byte r.lowerFd},{Hex.byte r.upperFd}) " ++
    s!"chr_fe=({Hex.byte r.lowerFe},{Hex.byte r.upperFe})"

end Mmc2

end Famicom.Board
