/-!
# Banks

Boards show parts of a large memory through windows in the address space.  The memory is divided
into banks of one size; a window shows one bank, chosen modulo the number of banks.
-/

namespace Famicom.Banks

/-- The number of banks of `unit` bytes in a memory; at least one. -/
def count (size unit : Nat) : Nat := max (size / unit) 1

/-- The last bank. -/
def last (size unit : Nat) : Nat := count size unit - 1

/-- The offset in memory that an address shows when its window shows `bank`. -/
def offset (size unit bank : Nat) (addr : UInt16) : Nat :=
  (bank % count size unit * unit + addr.toNat % unit) % size

theorem count_pos (size unit : Nat) : 0 < count size unit :=
  Nat.lt_of_lt_of_le Nat.one_pos (Nat.le_max_right _ _)

theorem offset_lt {size : Nat} (unit bank : Nat) (addr : UInt16) (h : 0 < size) :
    offset size unit bank addr < size := Nat.mod_lt _ h

end Famicom.Banks
