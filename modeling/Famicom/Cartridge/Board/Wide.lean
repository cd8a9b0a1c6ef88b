import Famicom.Cartridge.Banks
import Famicom.Cartridge.Image

/-!
# Boards that switch the whole ROM window

AxROM, Color Dreams and GxROM have one register, written anywhere in the ROM window, that selects
the 32 KiB shown there.  The rest of its bits select a pattern bank or, on AxROM, one of two
screens.
-/

namespace Famicom.Board

/-- The boards of this family. -/
inductive Wide.Model
  | axrom
  | colorDreams
  | gxrom
  deriving DecidableEq, Repr

/-- The fields of the register. -/
structure Wide.Registers where
  prgBank : UInt8
  chrBank : UInt8
  mirroring : Mirroring
  deriving DecidableEq, Repr

/-- A board of this family. -/
structure Wide where
  model : Wide.Model
  regs : Wide.Registers
  deriving DecidableEq, Repr

namespace Wide

def powerOn (model : Model) (i : Image) : Wide :=
  ⟨model, 0, 0, match model with
    | .axrom => .oneScreenLower
    | _ => i.mirroring⟩

/-- The units in which program and pattern banks are counted. -/
def prgUnit : Nat := 0x8000
def chrUnit : Nat := 0x2000

/-- Write the register. -/
def write (b : Wide) (value : UInt8) : Wide :=
  let regs := match b.model with
    | .axrom => { b.regs with
        prgBank := value &&& 0x07
        mirroring := if hasBits value 0x10 then .oneScreenUpper else .oneScreenLower }
    | .colorDreams => { b.regs with prgBank := value &&& 0x03, chrBank := value >>> 4 }
    | .gxrom => { b.regs with prgBank := (value >>> 4) &&& 0x03, chrBank := value &&& 0x03 }
  { b with regs }

/-- The name of a board in descriptions. -/
def Model.name : Model → String
  | axrom => "AxRom"
  | colorDreams => "ColorDreams"
  | gxrom => "GxRom"

/-- One line on the state of the board. -/
def describe (b : Wide) (prgSize : Nat) : String :=
  s!"{b.model.name} prg_bank=${Hex.byte b.regs.prgBank} chr_bank=${Hex.byte b.regs.chrBank} " ++
    s!"prg_32k_banks={Banks.count prgSize prgUnit} mirroring={b.regs.mirroring.name}"

end Wide

end Famicom.Board
