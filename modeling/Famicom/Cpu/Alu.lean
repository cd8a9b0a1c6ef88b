import Famicom.Cpu.Basic

/-!
# Arithmetic and logic of the processor

The effect of each operation on the registers, apart from memory.  Operations on an operand byte
take it as an argument (`ReadOp`); operations that replace a byte return its new value beside the
new registers (`ModifyOp`).  Arithmetic is binary whatever the decimal flag says.
-/

namespace Famicom.Cpu

/-! ## Building blocks -/

/-- Set or clear one flag. -/
def put (c : Cpu) (f : Flag) (on : Bool) : Cpu := { c with p := c.p.put f on }

/-- Zero and negative follow `v`. -/
def putResult (c : Cpu) (v : UInt8) : Cpu := { c with p := c.p.putResult v }

/-- Load the accumulator; zero and negative follow it. -/
def loadA (c : Cpu) (v : UInt8) : Cpu := { c with a := v }.putResult v

/-- Load X; zero and negative follow it. -/
def loadX (c : Cpu) (v : UInt8) : Cpu := { c with x := v }.putResult v

/-- Load Y; zero and negative follow it. -/
def loadY (c : Cpu) (v : UInt8) : Cpu := { c with y := v }.putResult v

/-- Add with carry. -/
def adc (c : Cpu) (v : UInt8) : Cpu :=
  let sum := c.a.toNat + v.toNat + (c.p.test .carry).toNat
  let out := UInt8.ofNat sum
  let overflow := signBit ((c.a ^^^ out) &&& (v ^^^ out))
  ((c.put .carry (0xFF < sum)).put .overflow overflow).loadA out

/-- Subtract with borrow, by adding the complement. -/
def sbc (c : Cpu) (v : UInt8) : Cpu := c.adc (v ^^^ 0xFF)

/-- Compare a register with a byte: carry when it is not below, zero and negative from the
difference. -/
def compare (c : Cpu) (register v : UInt8) : Cpu :=
  (c.put .carry (v ≤ register)).putResult (register - v)

/-- Test the bits of a byte: zero from its meeting with A, negative and overflow from its own top
bits. -/
def bit (c : Cpu) (v : UInt8) : Cpu :=
  ((c.put .zero (c.a &&& v == 0)).put .negative (signBit v)).put .overflow (hasBits v 0x40)

/-- Shift left; carry takes the bit that falls out. -/
def asl (c : Cpu) (v : UInt8) : UInt8 × Cpu :=
  let out := v <<< 1
  (out, (c.put .carry (signBit v)).putResult out)

/-- Shift right; carry takes the bit that falls out. -/
def lsr (c : Cpu) (v : UInt8) : UInt8 × Cpu :=
  let out := v >>> 1
  (out, (c.put .carry (hasBits v 0x01)).putResult out)

/-- Rotate left through carry. -/
def rol (c : Cpu) (v : UInt8) : UInt8 × Cpu :=
  let out := (v <<< 1) ||| (if c.p.test .carry then 0x01 else 0)
  (out, (c.put .carry (signBit v)).putResult out)

/-- Rotate right through carry. -/
def ror (c : Cpu) (v : UInt8) : UInt8 × Cpu :=
  let out := (v >>> 1) ||| (if c.p.test .carry then 0x80 else 0)
  (out, (c.put .carry (hasBits v 0x01)).putResult out)

/-- Decrement a byte. -/
def dec (c : Cpu) (v : UInt8) : UInt8 × Cpu := (v - 1, c.putResult (v - 1))

/-- Increment a byte. -/
def inc (c : Cpu) (v : UInt8) : UInt8 × Cpu := (v + 1, c.putResult (v + 1))

/-- Meet A with a byte, then rotate right; carry and overflow come from bits 6 and 5 of the
outcome. -/
def arr (c : Cpu) (v : UInt8) : Cpu :=
  let out := ((c.a &&& v) >>> 1) ||| (if c.p.test .carry then 0x80 else 0)
  ((c.loadA out).put .carry (hasBits out 0x40)).put .overflow
    (hasBits out 0x40 != hasBits out 0x20)

/-- Meet A with X and subtract a byte without borrow, into X. -/
def axs (c : Cpu) (v : UInt8) : Cpu :=
  let both := c.a &&& c.x
  (c.put .carry (v ≤ both)).loadX (both - v)

/-- Meet A with a byte; carry copies the sign of the outcome. -/
def anc (c : Cpu) (v : UInt8) : Cpu :=
  let out := c.a &&& v
  (c.loadA out).put .carry (signBit out)

/-- Meet A with a byte, then shift right. -/
def alr (c : Cpu) (v : UInt8) : Cpu :=
  let (out, c) := c.lsr (c.a &&& v)
  { c with a := out }

/-- The bits of A that the unstable opcodes `xaa` and `lxa` find set whatever A holds. -/
def unstableMask : UInt8 := 0xEE

end Famicom.Cpu
