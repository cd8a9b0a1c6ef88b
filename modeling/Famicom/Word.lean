/-!
# Bytes and words

The console's data are 8-bit bytes and its addresses 16-bit words, stored low byte first.  This
file splits words into bytes and joins them again, and tests the bits of a byte.

* `toNat_wordOf` — a word is worth 256 times its high byte plus its low byte;
* `lowByte_wordOf`, `highByte_wordOf`, `wordOf_lowByte_highByte` — splitting and joining are
  inverse to each other.
-/

namespace Famicom

/-- The low byte of a word. -/
def lowByte (w : UInt16) : UInt8 := w.toUInt8

/-- The high byte of a word. -/
def highByte (w : UInt16) : UInt8 := (w >>> 8).toUInt8

/-- The word whose low byte is `lo` and whose high byte is `hi`. -/
def wordOf (lo hi : UInt8) : UInt16 := (hi.toUInt16 <<< 8) ||| lo.toUInt16

/-- The upper hexadecimal digit of a byte. -/
def highDigit (b : UInt8) : Fin 16 := ⟨b.toNat / 16, Nat.div_lt_of_lt_mul b.toNat_lt⟩

/-- The lower hexadecimal digit of a byte. -/
def lowDigit (b : UInt8) : Fin 16 := ⟨b.toNat % 16, Nat.mod_lt _ (Nat.succ_pos 15)⟩

/-- Some bit of `mask` is set in `b`. -/
def hasBits (b mask : UInt8) : Bool := b &&& mask != 0

/-- Bit 7 of a byte, its sign in two's complement. -/
def signBit (b : UInt8) : Bool := hasBits b 0x80

/-- A byte read as a signed displacement and widened to a word. -/
def signExtend (b : UInt8) : UInt16 := if signBit b then wordOf b 0xFF else b.toUInt16

/-- A statement about all bytes holds when it holds of the 256 of them. -/
theorem forall_byte {P : UInt8 → Prop} (h : ∀ n : Fin 256, P (UInt8.ofNat n.val)) (b : UInt8) :
    P b := by
  have := h ⟨b.toNat, b.toNat_lt⟩
  simpa using this

/-- A statement about all bytes is decided by trying them. -/
instance decidableForallByte {P : UInt8 → Prop} [DecidablePred P] : Decidable (∀ b, P b) :=
  decidable_of_iff (∀ n : Fin 256, P (UInt8.ofNat n.val)) ⟨forall_byte, fun h _ => h _⟩

/-! ## Splitting and joining -/

theorem toNat_lowByte (w : UInt16) : (lowByte w).toNat = w.toNat % 256 := by
  simp [lowByte]

theorem toNat_highByte (w : UInt16) : (highByte w).toNat = w.toNat / 256 := by
  have h := w.toNat_lt
  simp only [highByte, UInt16.toNat_toUInt8, UInt16.toNat_shiftRight, Nat.shiftRight_eq_div_pow]
  show w.toNat / 256 % 256 = w.toNat / 256
  omega

theorem toNat_wordOf (lo hi : UInt8) : (wordOf lo hi).toNat = 256 * hi.toNat + lo.toNat := by
  have hl := lo.toNat_lt
  have hh := hi.toNat_lt
  simp only [wordOf, UInt16.toNat_or, UInt16.toNat_shiftLeft, UInt8.toNat_toUInt16]
  show (hi.toNat <<< 8) % 0x10000 ||| lo.toNat = _
  have h1 : hi.toNat <<< 8 = 256 * hi.toNat := by rw [Nat.shiftLeft_eq]; omega
  rw [Nat.mod_eq_of_lt (by omega), ← Nat.shiftLeft_add_eq_or_of_lt (by omega) hi.toNat, h1]

theorem lowByte_wordOf (lo hi : UInt8) : lowByte (wordOf lo hi) = lo := by
  have hl := lo.toNat_lt
  apply UInt8.toNat_inj.mp
  rw [toNat_lowByte, toNat_wordOf]
  omega

theorem highByte_wordOf (lo hi : UInt8) : highByte (wordOf lo hi) = hi := by
  have hl := lo.toNat_lt
  apply UInt8.toNat_inj.mp
  rw [toNat_highByte, toNat_wordOf]
  omega

theorem wordOf_lowByte_highByte (w : UInt16) : wordOf (lowByte w) (highByte w) = w := by
  apply UInt16.toNat_inj.mp
  rw [toNat_wordOf, toNat_lowByte, toNat_highByte]
  omega

end Famicom
