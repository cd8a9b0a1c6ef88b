import Famicom.Cartridge.Banks
import Famicom.Cartridge.Image

/-!
# Boards with one bank register made of discrete logic

A write anywhere in the ROM window stores the bank number.  UxROM uses it to switch the lower half
of the window and shows the last 16 KiB in the upper half; CNROM uses it for pattern memory.
-/

namespace Famicom.Board

/-- The boards of this family. -/
inductive Discrete.Model
  | uxrom
  | cnrom
  deriving DecidableEq, Repr

/-- The register of these boards. -/
structure Discrete.Registers where
  bank : UInt8
  deriving DecidableEq, Repr

/-- A board of this family. -/
structure Discrete where
  model : Discrete.Model
  mirroring : Mirroring
  regs : Discrete.Registers
  deriving DecidableEq, Repr

namespace Discrete

def powerOn (model : Model) (i : Image) : Discrete := ⟨model, i.mirroring, ⟨0⟩⟩

/-- The unit in which program banks are counted. -/
def prgUnit (b : Discrete) : Nat :=
  match b.model with
  | .uxrom => 0x4000
  | .cnrom => 0x8000

/-- The program bank at an address of the ROM window. -/
def prgBank (b : Discrete) (size : Nat) (addr : UInt16) : Nat :=
  match b.model with
  | .uxrom => if addr < 0xC000 then b.regs.bank.toNat else Banks.last size b.prgUnit
  | .cnrom => 0

/-- The bank of pattern memory, before it wraps. -/
def chrBank (b : Discrete) : Nat :=
  match b.model with
  | .uxrom => 0
  | .cnrom => b.regs.bank.toNat

/-- Store the bank number. -/
def write (b : Discrete) (value : UInt8) : Discrete := { b with regs := ⟨value⟩ }

/-- The name of a board in descriptions. -/
def Model.name : Model → String
  | uxrom => "UxRom"
  | cnrom => "CnRom"

/-- One line on the state of the board. -/
def describe (b : Discrete) : String := s!"{b.model.name} bank=${Hex.byte b.regs.bank}"

end Discrete

end Famicom.Board
