import Famicom.Word

/-!
# What the processor is wired to

A processor sees 65,536 byte addresses and nothing else.  `AddressSpace` is the interface of
whatever answers there: a read may change the answering device, since reading some registers
acknowledges them.  Words are read and written low byte first.

`FlatMemory` is the plainest address space, one memory cell per address, and `Recorder` wraps any
address space and keeps the list of accesses made through it.
-/

namespace Famicom

/-- A device that answers byte reads and byte writes at 16-bit addresses. -/
class AddressSpace (σ : Type) where
  read : UInt16 → StateM σ UInt8
  write : UInt16 → UInt8 → σ → σ

namespace AddressSpace

variable {σ : Type} [AddressSpace σ]

/-- Read the low byte at `addr`, then the high byte at the next address. -/
def readWord (addr : UInt16) : StateM σ UInt16 := do
  let lo ← read addr
  let hi ← read (addr + 1)
  return wordOf lo hi

/-- Write the low byte at `addr`, then the high byte at the next address. -/
def writeWord (addr value : UInt16) (s : σ) : σ :=
  write (addr + 1) (highByte value) (write addr (lowByte value) s)

end AddressSpace

/-! ## Flat memory -/

/-- One byte of memory at every address. -/
structure FlatMemory where
  cells : Vector UInt8 65536

namespace FlatMemory

/-- Memory that starts with the given bytes and is zero from there on. -/
def ofBytes (bytes : Array UInt8) : FlatMemory :=
  ⟨Vector.ofFn fun i => bytes.getD i.val 0⟩

/-- The byte at an address. -/
def get (m : FlatMemory) (addr : UInt16) : UInt8 :=
  have := addr.toNat_lt
  m.cells[addr.toNat]

/-- Replace the byte at an address. -/
def set (m : FlatMemory) (addr : UInt16) (value : UInt8) : FlatMemory :=
  ⟨m.cells.set addr.toNat value addr.toNat_lt⟩

/-- Store bytes at consecutive addresses, wrapping at the end of memory. -/
def load (m : FlatMemory) (addr : UInt16) : List UInt8 → FlatMemory
  | [] => m
  | b :: rest => (m.set addr b).load (addr + 1) rest

instance : AddressSpace FlatMemory where
  read addr m := (m.get addr, m)
  write addr value m := m.set addr value

@[simp] theorem get_set_self (m : FlatMemory) (addr : UInt16) (value : UInt8) :
    (m.set addr value).get addr = value := by
  simp [get, set]

theorem get_set_ne (m : FlatMemory) {addr other : UInt16} (value : UInt8) (h : addr ≠ other) :
    (m.set addr value).get other = m.get other := by
  have : addr.toNat ≠ other.toNat := fun e => h (UInt16.toNat_inj.mp e)
  simp [get, set, Vector.getElem_set_ne, this]

theorem get_set (m : FlatMemory) (addr other : UInt16) (value : UInt8) :
    (m.set addr value).get other = if addr = other then value else m.get other := by
  split
  · next h => rw [h, get_set_self]
  · next h => exact get_set_ne m value h

end FlatMemory

/-! ## Recording accesses -/

/-- One access to an address space. -/
inductive Access
  | read (addr : UInt16) (value : UInt8)
  | write (addr : UInt16) (value : UInt8)
  deriving DecidableEq, Repr

/-- An address space together with the accesses made to it, latest first. -/
structure Recorder (σ : Type) where
  space : σ
  latest : List Access := []

namespace Recorder

variable {σ : Type} [AddressSpace σ]

instance : AddressSpace (Recorder σ) where
  read addr r :=
    let (value, space) := AddressSpace.read addr r.space
    (value, ⟨space, .read addr value :: r.latest⟩)
  write addr value r := ⟨AddressSpace.write addr value r.space, .write addr value :: r.latest⟩

/-- The accesses in the order they were made. -/
def accesses (r : Recorder σ) : List Access := r.latest.reverse

end Recorder

end Famicom
