import Famicom.Cpu.Status

/-!
# The processor's registers

`Cpu` holds the registers of the processor, the record of the jam that stopped it, if one did, and
the number of clock cycles it has spent.
-/

namespace Famicom

/-- The jam that stopped a processor: the opcode that caused it and the address it was fetched
from. -/
structure Halt where
  opcode : UInt8
  address : UInt16
  deriving DecidableEq, Repr

/-- The registers of the processor.  A processor with a `halt` executes nothing. -/
structure Cpu where
  a : UInt8
  x : UInt8
  y : UInt8
  p : Status
  sp : UInt8
  pc : UInt16
  halt : Option Halt
  totalCycles : UInt64
  deriving DecidableEq, Repr

namespace Cpu

/-- The registers at power-on, before the reset vector is fetched. -/
def powerOn : Cpu where
  a := 0
  x := 0
  y := 0
  p := .powerOn
  sp := 0xFD
  pc := 0
  halt := none
  totalCycles := 0

instance : Inhabited Cpu := ⟨powerOn⟩

/-- Count cycles spent. -/
def spend (c : Cpu) (cycles : Nat) : Cpu :=
  { c with totalCycles := c.totalCycles + UInt64.ofNat cycles }

/-- The address of the top free cell of the stack, which lives in page 1. -/
def stackAddress (c : Cpu) : UInt16 := wordOf c.sp 0x01

end Cpu

end Famicom
