/-!
# Arenas

An arena is a nonempty block of bytes.  Indices wrap around its size, so every index names a byte.

* `get_set` — a stored byte reads back at the indices that name it, and only there.
-/

namespace Famicom

/-- A nonempty block of bytes. -/
structure Arena where
  bytes : Array UInt8
  nonempty : 0 < bytes.size

namespace Arena

/-- The number of bytes. -/
def size (a : Arena) : Nat := a.bytes.size

/-- A block of zeros; at least one byte. -/
def zeros (size : Nat) : Arena :=
  ⟨Array.replicate (max size 1) 0, by rw [Array.size_replicate]; omega⟩

/-- The given bytes, or `fallback` zeros when there are none. -/
def ofBytes (bytes : Array UInt8) (fallback : Nat) : Arena :=
  if h : 0 < bytes.size then ⟨bytes, h⟩ else zeros fallback

/-- The byte at an index. -/
def get (a : Arena) (i : Nat) : UInt8 :=
  have := Nat.mod_lt i a.nonempty
  a.bytes[i % a.bytes.size]

/-- Replace the byte at an index. -/
def set (a : Arena) (i : Nat) (value : UInt8) : Arena :=
  ⟨a.bytes.set (i % a.bytes.size) value (Nat.mod_lt _ a.nonempty), by
    rw [Array.size_set]; exact a.nonempty⟩

/-- Replace all bytes by as many others. -/
def replace? (a : Arena) (bytes : Array UInt8) : Option Arena :=
  if h : bytes.size = a.bytes.size then some ⟨bytes, h ▸ a.nonempty⟩ else none

/-- Replace all bytes by zeros. -/
def clear (a : Arena) : Arena :=
  ⟨Array.replicate a.bytes.size 0, by rw [Array.size_replicate]; exact a.nonempty⟩

theorem size_pos (a : Arena) : 0 < a.size := a.nonempty

theorem size_zeros (n : Nat) : (zeros n).size = max n 1 := Array.size_replicate

theorem get_zeros (n i : Nat) : (zeros n).get i = 0 := Array.getElem_replicate ..

@[simp] theorem size_set (a : Arena) (i : Nat) (value : UInt8) : (a.set i value).size = a.size := by
  simp [size, set]

@[simp] theorem size_clear (a : Arena) : a.clear.size = a.size := by
  simp [size, clear]

theorem replace?_bytes (a : Arena) : a.replace? a.bytes = some a := dif_pos rfl

theorem size_replace? {a b : Arena} {bytes : Array UInt8} (h : a.replace? bytes = some b) :
    b.size = a.size := by
  unfold replace? at h
  split at h
  · next hsize =>
    cases h
    exact hsize
  · cases h

/-- Which blocks fit depends on the size alone. -/
theorem replace?_congr {a b : Arena} (h : a.size = b.size) (bytes : Array UInt8) :
    a.replace? bytes = b.replace? bytes := by
  unfold replace?
  simp only [show a.bytes.size = b.bytes.size from h]

theorem getElem?_bytes {a : Arena} {i : Nat} (h : i < a.size) : a.bytes[i]? = some (a.get i) := by
  have hbytes : i < a.bytes.size := h
  simp only [get, Nat.mod_eq_of_lt hbytes, Array.getElem?_eq_getElem hbytes]

theorem get_set (a : Arena) (i j : Nat) (value : UInt8) :
    (a.set i value).get j = if j % a.size = i % a.size then value else a.get j := by
  simp only [get, set, size, Array.size_set, Array.getElem_set]
  by_cases h : j % a.bytes.size = i % a.bytes.size
  · simp [h]
  · simp [h, Ne.symm h]

theorem ext_get {a b : Arena} (hsize : a.size = b.size) (h : ∀ i < a.size, a.get i = b.get i) :
    a = b := by
  obtain ⟨bytes, ha⟩ := a
  obtain ⟨others, hb⟩ := b
  congr 1
  refine Array.ext hsize fun i hi hj => ?_
  have hget := h i hi
  simp only [get, Nat.mod_eq_of_lt hi, Nat.mod_eq_of_lt hj] at hget
  exact hget

end Arena

end Famicom
