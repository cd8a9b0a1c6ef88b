import Famicom.Cartridge.Banks
import Famicom.Cartridge.Image

/-!
# The board without registers

Small cartridges, sound programs, and cartridges whose board is not known.  A sound program appears
at its load address and nowhere else.  A small image repeats through the ROM window; of a large one
the first and the last 16 KiB are shown.
-/

namespace Famicom.Board

/-- How a board without registers is wired. -/
structure Fixed where
  mirroring : Mirroring
  loadAddress : UInt16
  isSound : Bool
  mapper : UInt16
  deriving DecidableEq, Repr

namespace Fixed

/-- The wiring that an image asks for. -/
def ofImage (i : Image) : Fixed := ⟨i.mirroring, i.loadAddress, i.sound.isSome, i.mapper⟩

/-- The unit in which program banks are counted. -/
def prgUnit : Nat := 0x4000

/-- The offset in a program ROM of the given size that an address of the ROM window shows. -/
def prgOffset? (b : Fixed) (size : Nat) (addr : UInt16) : Option Nat :=
  if b.isSound then
    if b.loadAddress ≤ addr ∧ addr.toNat - b.loadAddress.toNat < size then
      some (addr.toNat - b.loadAddress.toNat)
    else none
  else if 0x8000 < size then
    some (Banks.offset size prgUnit (if addr < 0xC000 then 0 else Banks.last size prgUnit) addr)
  else some ((addr.toNat - Image.romStart.toNat) % size)

/-- One line on the state of the board. -/
def describe (b : Fixed) (prgSize : Nat) : String :=
  s!"fixed mapper={b.mapper} load=${Hex.word b.loadAddress} prg_len={prgSize} sound={b.isSound}"

end Fixed

end Famicom.Board
