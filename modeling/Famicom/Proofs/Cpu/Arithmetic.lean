import Famicom.Proofs.Cpu.Matrix
import Mathlib.Data.Nat.Bitwise

/-!
# Bits and numbers

The processor computes on the bits of bytes and words; the opcode matrix computes on the numbers
that they stand for.  Here the two are shown to agree, operation by operation.

* bits: `signBit_eq`, `hasBits_bit`, `shiftLeft_one`, `shiftRight_one`, `wordOf_eq_ofNat`;
* flags: `put_eq_setFlags`, `test_eq_get`, `putResult_eq`;
* operations on the accumulator: `adc_eq_add`, `sbc_eq_subtract`, `compare_eq`.
-/

namespace Famicom

/-! ## Bytes -/

/-- A mask of one bit asks for a digit of the number. -/
theorem hasBits_bit (b : UInt8) (k : Fin 8) :
    hasBits b (UInt8.ofNat (2 ^ k.val)) = decide (b.toNat / 2 ^ k.val % 2 = 1) := by
  have hmask : (UInt8.ofNat (2 ^ k.val)).toNat = 2 ^ k.val :=
    UInt8.toNat_ofNat_of_lt' (Nat.pow_lt_pow_right Nat.one_lt_two k.isLt)
  have hand : (b &&& UInt8.ofNat (2 ^ k.val)).toNat = (b.toNat.testBit k).toNat * 2 ^ k.val := by
    rw [UInt8.toNat_and, hmask, Nat.and_two_pow]
  rw [← Nat.testBit_eq_decide_div_mod_eq, hasBits]
  cases hbit : b.toNat.testBit k with
  | false =>
    rw [hbit] at hand
    simpa using UInt8.toNat_inj.mp (hand.trans (Nat.zero_mul _))
  | true =>
    rw [hbit] at hand
    have hpos : 0 < 2 ^ k.val := Nat.two_pow_pos k
    rw [bne_iff_ne]
    intro hzero
    rw [hzero, Bool.toNat_true, Nat.one_mul, UInt8.toNat_zero] at hand
    omega

/-- The sign bit is the digit of 128. -/
theorem signBit_eq (b : UInt8) : signBit b = decide (128 ≤ b.toNat) := by
  have hb := b.toNat_lt
  refine (hasBits_bit b 7).trans (decide_eq_decide.mpr ?_)
  change b.toNat / 128 % 2 = 1 ↔ 128 ≤ b.toNat
  omega

theorem hasBits_bit0 (b : UInt8) : hasBits b 0x01 = decide (b.toNat % 2 = 1) := by
  refine (hasBits_bit b 0).trans ?_
  simp

theorem hasBits_bit5 (b : UInt8) : hasBits b 0x20 = decide (b.toNat / 32 % 2 = 1) :=
  hasBits_bit b 5

theorem hasBits_bit6 (b : UInt8) : hasBits b 0x40 = decide (b.toNat / 64 % 2 = 1) :=
  hasBits_bit b 6

/-- Shifting left doubles, and loses what does not fit. -/
theorem shiftLeft_one (b : UInt8) : b <<< 1 = UInt8.ofNat (2 * b.toNat) := by
  apply UInt8.toNat_inj.mp
  simp [Nat.shiftLeft_eq, Nat.mul_comm]

/-- Shifting right halves and rounds down. -/
theorem shiftRight_one (b : UInt8) : b >>> 1 = UInt8.ofNat (b.toNat / 2) := by
  have hb := b.toNat_lt
  apply UInt8.toNat_inj.mp
  simp [Nat.shiftRight_eq_div_pow]
  omega

/-- A bit shifted in from below is added. -/
theorem shiftLeft_or (b : UInt8) (bit : Bool) :
    b <<< 1 ||| (if bit then 0x01 else 0) = UInt8.ofNat (2 * b.toNat + bit.toNat) := by
  cases bit with
  | false => simpa using shiftLeft_one b
  | true =>
    have hor : (b.toNat % 128) <<< 1 + 1 = (b.toNat % 128) <<< 1 ||| 1 :=
      Nat.shiftLeft_add_eq_or_of_lt (by decide) _
    have hleft : 2 * b.toNat % 256 = (b.toNat % 128) <<< 1 := by
      rw [Nat.shiftLeft_eq]
      omega
    apply UInt8.toNat_inj.mp
    rw [shiftLeft_one]
    simp only [if_true, UInt8.toNat_or, UInt8.toNat_ofNat', UInt8.reduceToNat, Bool.toNat_true]
    rw [hleft, ← hor, Nat.shiftLeft_eq]
    omega

/-- A bit shifted in from above is worth 128. -/
theorem shiftRight_or (b : UInt8) (bit : Bool) :
    b >>> 1 ||| (if bit then 0x80 else 0) = UInt8.ofNat (b.toNat / 2 + 128 * bit.toNat) := by
  cases bit with
  | false => simpa using shiftRight_one b
  | true =>
    have hb := b.toNat_lt
    have hor : 1 <<< 7 + b.toNat / 2 = 1 <<< 7 ||| b.toNat / 2 :=
      Nat.shiftLeft_add_eq_or_of_lt (by omega) _
    have hright : b.toNat / 2 % 256 = b.toNat / 2 := by omega
    apply UInt8.toNat_inj.mp
    rw [shiftRight_one]
    simp only [if_true, UInt8.toNat_or, UInt8.toNat_ofNat', UInt8.reduceToNat, Bool.toNat_true]
    rw [hright, Nat.or_comm]
    refine hor.symm.trans ?_
    omega

/-- The complement of a byte is its distance from 255. -/
theorem toNat_complement (b : UInt8) : (b ^^^ 0xFF).toNat = 255 - b.toNat := by
  rw [show b ^^^ 0xFF = ~~~b from UInt8.xor_neg_one, UInt8.toNat_not]
  rfl

theorem signBit_eq_testBit (b : UInt8) : signBit b = b.toNat.testBit 7 := by
  rw [Nat.testBit_eq_decide_div_mod_eq]
  exact hasBits_bit b 7

theorem signBit_xor (a b : UInt8) : signBit (a ^^^ b) = decide (signBit a ≠ signBit b) := by
  simp only [signBit_eq_testBit, UInt8.toNat_xor, Nat.testBit_xor]
  cases a.toNat.testBit 7 <;> cases b.toNat.testBit 7 <;> rfl

theorem signBit_and (a b : UInt8) : signBit (a &&& b) = (signBit a && signBit b) := by
  simp only [signBit_eq_testBit, UInt8.toNat_and, Nat.testBit_and]

/-! ## Words -/

/-- The low byte comes first. -/
theorem wordOf_eq_ofNat (lo hi : UInt8) :
    wordOf lo hi = UInt16.ofNat (lo.toNat + 256 * hi.toNat) := by
  have hl := lo.toNat_lt
  have hh := hi.toNat_lt
  apply UInt16.toNat_inj.mp
  rw [toNat_wordOf, UInt16.toNat_ofNat_of_lt' (show _ < 65536 by omega)]
  omega

theorem toUInt16_eq_ofNat (b : UInt8) : b.toUInt16 = UInt16.ofNat b.toNat := by
  apply UInt16.toNat_inj.mp
  have := b.toNat_lt
  rw [UInt8.toNat_toUInt16, UInt16.toNat_ofNat_of_lt' (show _ < 65536 by omega)]

theorem add_eq_ofNat (a b : UInt16) : a + b = UInt16.ofNat (a.toNat + b.toNat) := by
  apply UInt16.toNat_inj.mp
  simp

/-- A displacement counts as a signed number. -/
theorem add_signExtend (w : UInt16) (d : UInt8) :
    w + signExtend d = UInt16.ofInt (w.toNat + Matrix.signed d) := by
  have hd := d.toNat_lt
  apply UInt16.toNat_inj.mp
  simp only [signExtend, signBit_eq, decide_eq_true_eq, Matrix.signed, UInt16.toNat_add,
    UInt16.ofInt, UInt16.toNat_ofNat']
  split <;> split <;> simp [toNat_wordOf] <;> omega

namespace Matrix

/-! ## Flags -/

theorem Flags.ofByte_toByte (f : Flags) : Flags.ofByte f.toByte = f := by
  obtain ⟨c, z, i, d, b, u, v, n⟩ := f
  revert c z i d b u v n
  decide +kernel

/-- The state of one flag. -/
def Flags.get (f : Flags) : Flag → Bool
  | .carry => f.carry
  | .zero => f.zero
  | .interruptDisable => f.interruptDisable
  | .decimal => f.decimal
  | .brk => f.brk
  | .unused => f.unused
  | .overflow => f.overflow
  | .negative => f.negative

/-- Set or clear one flag. -/
def Flags.assign (f : Flags) (flag : Flag) (on : Bool) : Flags :=
  match flag with
  | .carry => { f with carry := on }
  | .zero => { f with zero := on }
  | .interruptDisable => { f with interruptDisable := on }
  | .decimal => { f with decimal := on }
  | .brk => { f with brk := on }
  | .unused => { f with unused := on }
  | .overflow => { f with overflow := on }
  | .negative => { f with negative := on }

/-- Asking for a flag by its mask is reading it off the byte. -/
theorem test_eq_get (p : Status) (f : Flag) : p.test f = (Flags.ofByte p.bits).get f := by
  cases f with
  | carry => exact hasBits_bit0 p.bits
  | zero => exact hasBits_bit p.bits 1
  | interruptDisable => exact hasBits_bit p.bits 2
  | decimal => exact hasBits_bit p.bits 3
  | brk => exact hasBits_bit p.bits 4
  | unused => exact hasBits_bit5 p.bits
  | overflow => exact hasBits_bit6 p.bits
  | negative => exact hasBits_bit p.bits 7

/-- Setting a flag by its mask sets the unused bit with it. -/
theorem put_eq_assign (p : Status) (f : Flag) (on : Bool) :
    p.put f on = ⟨{ (Flags.ofByte p.bits).assign f on with unused := true }.toByte⟩ := by
  obtain ⟨b⟩ := p
  revert b
  cases on <;> cases f <;> decide +kernel

/-! ## Registers under a change of flags -/

section SetFlags

variable (c : Cpu) (f g : Flags → Flags)

@[simp] theorem setFlags_a : (setFlags c f).a = c.a := rfl
@[simp] theorem setFlags_x : (setFlags c f).x = c.x := rfl
@[simp] theorem setFlags_y : (setFlags c f).y = c.y := rfl
@[simp] theorem setFlags_sp : (setFlags c f).sp = c.sp := rfl
@[simp] theorem setFlags_pc : (setFlags c f).pc = c.pc := rfl

/-- Flags read back as they were set. -/
@[simp] theorem flags_setFlags : flags (setFlags c f) = { f (flags c) with unused := true } := by
  simp only [flags, setFlags, Flags.ofByte_toByte]

/-- Two changes of flags are one. -/
theorem setFlags_setFlags :
    setFlags (setFlags c f) g = setFlags c fun old => g { f old with unused := true } := by
  rw [setFlags, flags_setFlags]
  rfl

end SetFlags

theorem put_eq_setFlags (c : Cpu) (f : Flag) (on : Bool) :
    c.put f on = setFlags c (·.assign f on) := by
  rw [Cpu.put, put_eq_assign]
  rfl

theorem putResult_eq (c : Cpu) (v : UInt8) : c.putResult v = setResult c v := by
  have hz : (v == 0) = decide (v.toNat = 0) := by
    rw [Bool.eq_iff_iff, beq_iff_eq, decide_eq_true_iff, ← UInt8.toNat_inj]
    rfl
  calc c.putResult v = (c.put .zero (v == 0)).put .negative (signBit v) := rfl
    _ = setResult c v := by
      rw [put_eq_setFlags, put_eq_setFlags, setFlags_setFlags, hz, signBit_eq]
      rfl

theorem test_eq_flags (c : Cpu) (f : Flag) : c.p.test f = (flags c).get f := test_eq_get c.p f

/-! ## The accumulator -/

/-- Bit 7 of the two meetings is set when both summands have a sign that the sum has not. -/
theorem overflow_add (a v : UInt8) (carry : Bool) :
    signBit ((a ^^^ UInt8.ofNat (a.toNat + v.toNat + carry.toNat)) &&&
        (v ^^^ UInt8.ofNat (a.toNat + v.toNat + carry.toNat))) =
      decide (signed a + signed v + carry.toNat < -128 ∨
        127 < signed a + signed v + carry.toNat) := by
  have ha := a.toNat_lt
  have hv := v.toNat_lt
  have hc : carry.toNat ≤ 1 := Bool.toNat_le carry
  rw [signBit_and, signBit_xor, signBit_xor, ← Bool.decide_and, decide_eq_decide]
  simp only [signBit_eq, UInt8.toNat_ofNat', signed, ne_eq, decide_eq_decide]
  split <;> split <;> omega

/-- The circuit of the adder computes the sum. -/
theorem adc_eq_add (c : Cpu) (v : UInt8) : c.adc v = add c v := by
  simp only [Cpu.adc, add, Cpu.loadA, test_eq_flags, overflow_add, put_eq_setFlags, putResult_eq,
    setFlags_setFlags, Flags.get]
  rfl

/-- Complementing a byte negates it, up to one. -/
theorem signed_complement (v : UInt8) : signed (v ^^^ 0xFF) = -signed v - 1 := by
  have hv := v.toNat_lt
  simp only [signed, toNat_complement]
  split <;> split <;> omega

/-- Subtraction adds the complement: the borrow that it misses makes up for the 256 in it. -/
theorem sbc_eq_subtract (c : Cpu) (v : UInt8) : c.sbc v = subtract c v := by
  have ha := c.a.toNat_lt
  have hv := v.toNat_lt
  have hk : (!(flags c).carry).toNat = 1 - (flags c).carry.toNat := by
    cases (flags c).carry <;> rfl
  have hk1 : (flags c).carry.toNat ≤ 1 := Bool.toNat_le _
  have hsum : c.a.toNat + (255 - v.toNat) + (flags c).carry.toNat =
      c.a.toNat + 256 - v.toNat - (1 - (flags c).carry.toNat) := by omega
  have hcarry : 255 < c.a.toNat + 256 - v.toNat - (1 - (flags c).carry.toNat) ↔
      v.toNat + (1 - (flags c).carry.toNat) ≤ c.a.toNat := by omega
  have hsigned : signed c.a + (-signed v - 1) + (flags c).carry.toNat =
      signed c.a - signed v - ((1 - (flags c).carry.toNat : Nat) : Int) := by omega
  rw [Cpu.sbc, adc_eq_add]
  simp only [add, subtract, toNat_complement, signed_complement, hk, hsum, hcarry, hsigned]

/-- A byte is zero in the difference exactly when it equals the register. -/
theorem compare_eq (c : Cpu) (r v : UInt8) : c.compare r v = compare c r v := by
  have hr := r.toNat_lt
  have hv := v.toNat_lt
  have hzero : (r.toNat + 256 - v.toNat) % 256 = 0 ↔ r = v := by
    rw [← UInt8.toNat_inj]
    omega
  have hsub : (r - v).toNat = (r.toNat + 256 - v.toNat) % 256 := by
    rw [UInt8.toNat_sub]
    omega
  have hle : v ≤ r ↔ v.toNat ≤ r.toNat := UInt8.le_iff_toNat_le
  simp only [Cpu.compare, compare, put_eq_setFlags, putResult_eq, setResult, setFlags_setFlags,
    Flags.assign, hzero, hsub, hle]
  rfl

/-- All the flags of a sum are set at once. -/
theorem add_eq_setFlags (c : Cpu) (v : UInt8) :
    add c v =
      let carry := (flags c).carry.toNat
      let sum := c.a.toNat + v.toNat + carry
      let out := UInt8.ofNat sum
      setFlags { c with a := out } fun f =>
        { f with
          carry := 255 < sum
          overflow := signed c.a + signed v + carry < -128 ∨ 127 < signed c.a + signed v + carry
          zero := out.toNat = 0
          negative := 128 ≤ out.toNat } := by
  let carry := (flags c).carry.toNat
  let sum := c.a.toNat + v.toNat + carry
  let put (f : Flags) : Flags :=
    { f with
      carry := 255 < sum
      overflow := signed c.a + signed v + carry < -128 ∨ 127 < signed c.a + signed v + carry }
  have hadd : add c v =
      setResult (setFlags { c with a := UInt8.ofNat sum } put) (UInt8.ofNat sum) := rfl
  rw [hadd, setResult, setFlags_setFlags]
  rfl

/-- All the flags of a difference are set at once. -/
theorem subtract_eq_setFlags (c : Cpu) (v : UInt8) :
    subtract c v =
      let borrow := (!(flags c).carry).toNat
      let out := UInt8.ofNat (c.a.toNat + 256 - v.toNat - borrow)
      setFlags { c with a := out } fun f =>
        { f with
          carry := v.toNat + borrow ≤ c.a.toNat
          overflow := signed c.a - signed v - borrow < -128 ∨ 127 < signed c.a - signed v - borrow
          zero := out.toNat = 0
          negative := 128 ≤ out.toNat } := by
  let borrow := (!(flags c).carry).toNat
  let out := UInt8.ofNat (c.a.toNat + 256 - v.toNat - borrow)
  let put (f : Flags) : Flags :=
    { f with
      carry := v.toNat + borrow ≤ c.a.toNat
      overflow := signed c.a - signed v - borrow < -128 ∨ 127 < signed c.a - signed v - borrow }
  have hsubtract : subtract c v = setResult (setFlags { c with a := out } put) out := rfl
  rw [hsubtract, setResult, setFlags_setFlags]
  rfl

theorem bit_eq (c : Cpu) (v : UInt8) :
    c.bit v = setFlags c fun f =>
      { f with
        zero := c.a &&& v = 0
        negative := 128 ≤ v.toNat
        overflow := v.toNat / 64 % 2 = 1 } := by
  simp only [Cpu.bit, put_eq_setFlags, setFlags_setFlags, Flags.assign, signBit_eq, hasBits_bit6]
  rfl

/-! ## Shifts -/

theorem asl_eq (c : Cpu) (v : UInt8) : c.asl v = shiftLeft c v false := by
  simp only [Cpu.asl, shiftLeft, put_eq_setFlags, putResult_eq, Flags.assign, signBit_eq,
    shiftLeft_one, Bool.toNat_false, Nat.add_zero]

theorem rol_eq (c : Cpu) (v : UInt8) : c.rol v = shiftLeft c v (flags c).carry := by
  simp only [Cpu.rol, shiftLeft, put_eq_setFlags, putResult_eq, Flags.assign, signBit_eq,
    shiftLeft_or, test_eq_flags, Flags.get]

theorem lsr_eq (c : Cpu) (v : UInt8) : c.lsr v = shiftRight c v false := by
  simp only [Cpu.lsr, shiftRight, put_eq_setFlags, putResult_eq, Flags.assign, hasBits_bit0,
    shiftRight_one, Bool.toNat_false, Nat.mul_zero, Nat.add_zero]

theorem ror_eq (c : Cpu) (v : UInt8) : c.ror v = shiftRight c v (flags c).carry := by
  simp only [Cpu.ror, shiftRight, put_eq_setFlags, putResult_eq, Flags.assign, hasBits_bit0,
    shiftRight_or, test_eq_flags, Flags.get]

theorem add_one_eq_next (v : UInt8) : v + 1 = next v := by
  apply UInt8.toNat_inj.mp
  simp [next]

theorem sub_one_eq_previous (v : UInt8) : v - 1 = previous v := by
  apply UInt8.toNat_inj.mp
  have hv := v.toNat_lt
  simp only [previous, UInt8.toNat_sub, UInt8.toNat_ofNat', UInt8.toNat_one]
  omega

end Matrix

end Famicom
