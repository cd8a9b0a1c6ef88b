import Famicom.Word

/-!
# Cycle counts

Every opcode costs a fixed number of clock cycles.  Page crossings and taken branches add nothing.

* `two_le_cycles`, `cycles_le_eight` — an instruction takes two to eight cycles.
-/

namespace Famicom.Timing

/-- The cycles that each opcode costs, by its high and its low hexadecimal digit. -/
def opcodeCycles : Vector (Vector Nat 16) 16 := #v[
  #v[7, 6, 2, 8, 3, 3, 5, 5, 3, 2, 2, 2, 4, 4, 6, 6],
  #v[2, 5, 2, 8, 4, 4, 6, 6, 2, 4, 2, 7, 4, 4, 7, 7],
  #v[6, 6, 2, 8, 3, 3, 5, 5, 4, 2, 2, 2, 4, 4, 6, 6],
  #v[2, 5, 2, 8, 4, 4, 6, 6, 2, 4, 2, 7, 4, 4, 7, 7],
  #v[6, 6, 2, 8, 3, 3, 5, 5, 3, 2, 2, 2, 3, 4, 6, 6],
  #v[2, 5, 2, 8, 4, 4, 6, 6, 2, 4, 2, 7, 4, 4, 7, 7],
  #v[6, 6, 2, 8, 3, 3, 5, 5, 4, 2, 2, 2, 5, 4, 6, 6],
  #v[2, 5, 2, 8, 4, 4, 6, 6, 2, 4, 2, 7, 4, 4, 7, 7],
  #v[2, 6, 2, 6, 3, 3, 3, 3, 2, 2, 2, 2, 4, 4, 4, 4],
  #v[2, 6, 2, 6, 4, 4, 4, 4, 2, 5, 2, 5, 5, 5, 5, 5],
  #v[2, 6, 2, 6, 3, 3, 3, 3, 2, 2, 2, 2, 4, 4, 4, 4],
  #v[2, 5, 2, 5, 4, 4, 4, 4, 2, 4, 2, 4, 4, 4, 4, 4],
  #v[2, 6, 2, 8, 3, 3, 5, 5, 2, 2, 2, 2, 4, 4, 6, 6],
  #v[2, 5, 2, 8, 4, 4, 6, 6, 2, 4, 2, 7, 4, 4, 7, 7],
  #v[2, 6, 2, 8, 3, 3, 5, 5, 2, 2, 2, 2, 4, 4, 6, 6],
  #v[2, 5, 2, 8, 4, 4, 6, 6, 2, 4, 2, 7, 4, 4, 7, 7]]

/-- The cycles that an opcode costs. -/
def cycles (opcode : UInt8) : Nat :=
  (opcodeCycles.get (highDigit opcode)).get (lowDigit opcode)

/-- The cycles that entering an interrupt costs. -/
def interruptCycles : Nat := 7

/-- No opcode is faster than two cycles. -/
theorem two_le_cycles (opcode : UInt8) : 2 ≤ cycles opcode :=
  forall_byte (P := fun b => 2 ≤ cycles b) (by decide +kernel) opcode

/-- No opcode is slower than eight cycles. -/
theorem cycles_le_eight (opcode : UInt8) : cycles opcode ≤ 8 :=
  forall_byte (P := fun b => cycles b ≤ 8) (by decide +kernel) opcode

end Famicom.Timing
