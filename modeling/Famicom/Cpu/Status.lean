import Famicom.Word

/-!
# The processor status byte

Eight flags packed into one byte.  `brk` and `unused` are not stored by the processor: they only
appear in the copies of the status that are pushed on the stack.  Setting any flag forces the
unused bit on.
-/

namespace Famicom

/-- A flag of the status byte. -/
inductive Flag
  | carry
  | zero
  | interruptDisable
  | decimal
  | brk
  | unused
  | overflow
  | negative
  deriving DecidableEq, Repr

namespace Flag

/-- The bit of the status byte that holds the flag. -/
def mask : Flag → UInt8
  | carry => 0x01
  | zero => 0x02
  | interruptDisable => 0x04
  | decimal => 0x08
  | brk => 0x10
  | unused => 0x20
  | overflow => 0x40
  | negative => 0x80

end Flag

/-- The status register. -/
structure Status where
  bits : UInt8
  deriving DecidableEq, Repr, Inhabited

namespace Status

/-- The flag is set. -/
def test (p : Status) (f : Flag) : Bool := hasBits p.bits f.mask

/-- Set or clear one flag; the unused bit comes out set. -/
def put (p : Status) (f : Flag) (on : Bool) : Status :=
  ⟨(if on then p.bits ||| f.mask else p.bits &&& ~~~f.mask) ||| Flag.unused.mask⟩

/-- Zero and negative follow the value of a result. -/
def putResult (p : Status) (v : UInt8) : Status :=
  (p.put .zero (v == 0)).put .negative (signBit v)

/-- The status at power-on: interrupts disabled. -/
def powerOn : Status := ⟨Flag.interruptDisable.mask ||| Flag.unused.mask⟩

/-- The copy that software pushes: break and unused are set in it. -/
def softwareCopy (p : Status) : UInt8 := p.bits ||| Flag.brk.mask ||| Flag.unused.mask

/-- The copy that an interrupt pushes: break is clear in it, unused is set. -/
def interruptCopy (p : Status) : UInt8 := (p.bits &&& ~~~Flag.brk.mask) ||| Flag.unused.mask

/-- The status taken from a pulled byte: break is dropped, unused is set. -/
def ofPulled (b : UInt8) : Status := ⟨(b &&& ~~~Flag.brk.mask) ||| Flag.unused.mask⟩

end Status

end Famicom
