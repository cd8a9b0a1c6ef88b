import Famicom.Proofs.Cpu.Refinement

/-!
# Addition, subtraction and comparison of integers

Sums, differences and comparisons are those of the integers that the bytes stand for, unsigned in
the carry and signed in the overflow.  The decimal flag does not matter, and the addressing mode
matters only by the byte that it finds.  Three undocumented operations do the same with a byte that
they have replaced in memory.

* `Added`, `Subtracted`, `Compared` — the laws.
* `Outcome` — which of them an operation obeys, and on which byte.
* `arithmetic_of_integers` — steps obey them.
* `compare_sets_unused` — a comparison sets the unused bit of the status.
-/

namespace Famicom

open Famicom.Matrix (Mnemonic Addressing Flags entry address flags setFlags signed perform passed)

/-! ## Laws -/

/-- The sum of A, a byte and a carry. -/
structure Added (c d : Cpu) (v : UInt8) (carry : Bool) : Prop where
  /-- A keeps what fits a byte. -/
  a : d.a.toNat = (c.a.toNat + v.toNat + carry.toNat) % 256
  /-- Carry tells that the sum does not fit, overflow that the signed sum does not. -/
  flags : flags d =
    { flags c with
      carry := 255 < c.a.toNat + v.toNat + carry.toNat
      overflow := signed c.a + signed v + carry.toNat < -128 ∨
        127 < signed c.a + signed v + carry.toNat
      zero := d.a.toNat = 0
      negative := 128 ≤ d.a.toNat
      unused := true }
  x : d.x = c.x
  y : d.y = c.y
  sp : d.sp = c.sp

/-- The difference of A, a byte and the borrow that a missing carry stands for. -/
structure Subtracted (c d : Cpu) (v : UInt8) (carry : Bool) : Prop where
  /-- A keeps the remainder of the difference. -/
  a : (d.a.toNat : Int) = (c.a.toNat - v.toNat - (1 - carry.toNat)) % 256
  /-- Carry tells that nothing was borrowed, overflow that the signed difference does not fit. -/
  flags : flags d =
    { flags c with
      carry := 0 ≤ (c.a.toNat - v.toNat - (1 - carry.toNat) : Int)
      overflow := signed c.a - signed v - (1 - carry.toNat) < -128 ∨
        127 < signed c.a - signed v - (1 - carry.toNat)
      zero := d.a.toNat = 0
      negative := 128 ≤ d.a.toNat
      unused := true }
  x : d.x = c.x
  y : d.y = c.y
  sp : d.sp = c.sp

/-- The comparison of a register with a byte.  No register changes. -/
structure Compared (c d : Cpu) (register v : UInt8) : Prop where
  flags : flags d =
    { flags c with
      carry := v.toNat ≤ register.toNat
      zero := register = v
      negative := 128 ≤ (register - v).toNat
      unused := true }
  a : d.a = c.a
  x : d.x = c.x
  y : d.y = c.y
  sp : d.sp = c.sp

/-! ## The operations -/

/-- The opcodes of the operations that count. -/
def arithmeticOpcodes : Mnemonic → List UInt8
  | .adc => [0x61, 0x65, 0x69, 0x6D, 0x71, 0x75, 0x79, 0x7D]
  | .sbc => [0xE1, 0xE5, 0xE9, 0xEB, 0xED, 0xF1, 0xF5, 0xF9, 0xFD]
  | .cmp => [0xC1, 0xC5, 0xC9, 0xCD, 0xD1, 0xD5, 0xD9, 0xDD]
  | .cpx => [0xE0, 0xE4, 0xEC]
  | .cpy => [0xC0, 0xC4, 0xCC]
  | .rra => [0x63, 0x67, 0x6F, 0x73, 0x77, 0x7B, 0x7F]
  | .isc => [0xE3, 0xE7, 0xEF, 0xF3, 0xF7, 0xFB, 0xFF]
  | .dcp => [0xC3, 0xC7, 0xCF, 0xD3, 0xD7, 0xDB, 0xDF]
  | _ => []

/-- What an operation makes of the byte at `place`, of the registers and of memory. -/
def Outcome (name : Mnemonic) (place : UInt16) (s t : Cpu × FlatMemory) : Prop :=
  let v := s.2.get place
  let carry := (flags s.1).carry
  match name with
  | .adc => Added s.1 t.1 v carry ∧ t.2 = s.2
  | .sbc => Subtracted s.1 t.1 v carry ∧ t.2 = s.2
  | .cmp => Compared s.1 t.1 s.1.a v ∧ t.2 = s.2
  | .cpx => Compared s.1 t.1 s.1.x v ∧ t.2 = s.2
  | .cpy => Compared s.1 t.1 s.1.y v ∧ t.2 = s.2
  | .rra =>
    let rotated := UInt8.ofNat (v.toNat / 2 + 128 * carry.toNat)
    Added s.1 t.1 rotated (v.toNat % 2 = 1) ∧ t.2 = s.2.set place rotated
  | .isc =>
    let raised := UInt8.ofNat (v.toNat + 1)
    Subtracted s.1 t.1 raised carry ∧ t.2 = s.2.set place raised
  | .dcp =>
    let lowered := UInt8.ofNat (v.toNat + 255)
    Compared s.1 t.1 s.1.a lowered ∧ t.2 = s.2.set place lowered
  | _ => True

/-! ## What the operations compute -/

/-- The table's sum obeys the law of sums. -/
theorem added_add (c : Cpu) (v : UInt8) : Added c (Matrix.add c v) v (flags c).carry := by
  rw [Matrix.add_eq_setFlags]
  exact ⟨UInt8.toNat_ofNat' .., Matrix.flags_setFlags .., rfl, rfl, rfl⟩

/-- The difference with its borrow obeys the law of differences. -/
theorem subtracted_subtract (c : Cpu) (v : UInt8) :
    Subtracted c (Matrix.subtract c v) v (flags c).carry := by
  have ha := c.a.toNat_lt
  have hv := v.toNat_lt
  have hk : ((!(flags c).carry).toNat : Int) = 1 - ((flags c).carry.toNat : Int) := by
    cases (flags c).carry <;> rfl
  have hk0 : ((flags c).carry.toNat : Int) ≤ 1 := by
    cases (flags c).carry <;> decide
  rw [Matrix.subtract_eq_setFlags]
  refine ⟨?_, ?_, rfl, rfl, rfl⟩
  · simp only [Matrix.setFlags_a, UInt8.toNat_ofNat']
    omega
  · -- the carry that comes out says that the difference is not negative
    have hborrow : v.toNat + (!(flags c).carry).toNat ≤ c.a.toNat ↔
        0 ≤ (c.a.toNat - v.toNat - (1 - (flags c).carry.toNat) : Int) := by omega
    rw [Matrix.flags_setFlags]
    simp only [Matrix.setFlags_a, hborrow, hk]
    rfl

/-- A comparison is a difference of which only the flags are kept. -/
theorem compared_compare (c : Cpu) (r v : UInt8) : Compared c (Matrix.compare c r v) r v := by
  have hr := r.toNat_lt
  have hv := v.toNat_lt
  have hsub : (r - v).toNat = (r.toNat + 256 - v.toNat) % 256 := by
    rw [UInt8.toNat_sub]
    omega
  refine ⟨?_, rfl, rfl, rfl, rfl⟩
  rw [Matrix.compare, Matrix.flags_setFlags, hsub]

/-! ## Steps -/

/-- The opcodes listed under a name have that name in the table, and take no accumulator. -/
theorem entry_of_mem {name : Mnemonic} {opcode : UInt8} (h : opcode ∈ arithmeticOpcodes name) :
    (entry opcode).1 = name ∧ (entry opcode).2 ≠ .acc := by
  have hall : (arithmeticOpcodes name).all
      fun opcode => (entry opcode).1 = name ∧ (entry opcode).2 ≠ .acc := by
    cases name <;> decide +kernel
  simpa using List.all_eq_true.mp hall opcode h

/-- The lists are complete: an opcode whose name has a list is on it. -/
theorem mem_or_eq_nil (opcode : UInt8) :
    opcode ∈ arithmeticOpcodes (entry opcode).1 ∨ arithmeticOpcodes (entry opcode).1 = [] := by
  revert opcode
  decide +kernel

/-- The opcodes of an operation that counts, and no others, stand for it. -/
theorem mem_arithmeticOpcodes_iff {name : Mnemonic} (h : arithmeticOpcodes name ≠ [])
    (opcode : UInt8) : opcode ∈ arithmeticOpcodes name ↔ (entry opcode).1 = name := by
  constructor
  · exact fun hmem => (entry_of_mem hmem).1
  · rintro rfl
    exact (mem_or_eq_nil opcode).resolve_right h

section Counted

variable {c e : Cpu} {mode : Addressing} {v : UInt8} {carry : Bool}

/-- The laws do not see where the program stands, nor the count of cycles. -/
theorem Added.counted (h : Added (passed mode c) e v carry) (n : Nat) :
    Added c (e.spend n) v carry := ⟨h.a, h.flags, h.x, h.y, h.sp⟩

theorem Subtracted.counted (h : Subtracted (passed mode c) e v carry) (n : Nat) :
    Subtracted c (e.spend n) v carry := ⟨h.a, h.flags, h.x, h.y, h.sp⟩

theorem Compared.counted {r : UInt8} (h : Compared (passed mode c) e r v) (n : Nat) :
    Compared c (e.spend n) r v := ⟨h.flags, h.a, h.x, h.y, h.sp⟩

end Counted

/-- A rotation hands its carry to the sum, which sets all other flags that it sets anew. -/
theorem added_shiftRight (c : Cpu) (v : UInt8) (bit : Bool) :
    let rotated := Matrix.shiftRight c v bit
    Added c (Matrix.add rotated.2 rotated.1) rotated.1 (v.toNat % 2 = 1) := by
  intro rotated
  have hflags : flags rotated.2 =
      { flags c with
        carry := v.toNat % 2 = 1
        zero := rotated.1.toNat = 0
        negative := 128 ≤ rotated.1.toNat
        unused := true } := by
    simp only [rotated, Matrix.shiftRight, Matrix.setResult, Matrix.flags_setFlags]
  have hadded := added_add rotated.2 rotated.1
  rw [hflags] at hadded
  refine ⟨hadded.a, hadded.flags.trans ?_, hadded.x, hadded.y, hadded.sp⟩
  rw [hflags]
  rfl

/-- Performing an operation has its outcome, and counting cycles leaves it. -/
theorem perform_outcome (name : Mnemonic) {mode : Addressing} (hacc : mode ≠ .acc) (c : Cpu)
    (m : FlatMemory) (n : Nat) :
    Outcome name (address mode c m) (c, m)
      ((perform name mode c m).1.spend n, (perform name mode c m).2) := by
  let d := passed mode c
  let place := address mode c m
  let v := m.get place
  have hv : (if mode = .acc then c.a else m.get (address mode c m)) = v := if_neg hacc
  -- the combined operations change the operand first and then go on as the plain ones
  cases name with
  | adc =>
    have h : perform .adc mode c m = (Matrix.add d v, m) := by simp only [perform, hv]; rfl
    rw [h]
    exact ⟨(added_add d v).counted n, rfl⟩
  | sbc =>
    have h : perform .sbc mode c m = (Matrix.subtract d v, m) := by simp only [perform, hv]; rfl
    rw [h]
    exact ⟨(subtracted_subtract d v).counted n, rfl⟩
  | cmp =>
    have h : perform .cmp mode c m = (Matrix.compare d d.a v, m) := by simp only [perform, hv]; rfl
    rw [h]
    exact ⟨(compared_compare d d.a v).counted n, rfl⟩
  | cpx =>
    have h : perform .cpx mode c m = (Matrix.compare d d.x v, m) := by simp only [perform, hv]; rfl
    rw [h]
    exact ⟨(compared_compare d d.x v).counted n, rfl⟩
  | cpy =>
    have h : perform .cpy mode c m = (Matrix.compare d d.y v, m) := by simp only [perform, hv]; rfl
    rw [h]
    exact ⟨(compared_compare d d.y v).counted n, rfl⟩
  | rra =>
    let rotated := Matrix.shiftRight d v (flags d).carry
    have h : perform .rra mode c m = (Matrix.add rotated.2 rotated.1, m.set place rotated.1) := by
      simp only [perform, hv, if_neg hacc]
      rfl
    rw [h]
    exact ⟨(added_shiftRight d v (flags d).carry).counted n, rfl⟩
  | isc =>
    have h : perform .isc mode c m =
        (Matrix.subtract d (Matrix.next v), m.set place (Matrix.next v)) := by
      simp only [perform, hv, if_neg hacc]
      rfl
    rw [h]
    exact ⟨(subtracted_subtract d (Matrix.next v)).counted n, rfl⟩
  | dcp =>
    have h : perform .dcp mode c m =
        (Matrix.compare d d.a (Matrix.previous v), m.set place (Matrix.previous v)) := by
      simp only [perform, hv, if_neg hacc]
      rfl
    rw [h]
    exact ⟨(compared_compare d d.a (Matrix.previous v)).counted n, rfl⟩
  | _ => trivial

/-- Where the operand of the next instruction lies. -/
def operandPlace (s : Cpu × FlatMemory) : UInt16 :=
  address (entry (s.2.get s.1.pc)).2 s.1 s.2

/-- An operation that counts, when it is the next instruction, obeys its law. -/
theorem step_outcome {name : Mnemonic} {s : Cpu × FlatMemory} (running : s.1.halt = none)
    (hopcode : s.2.get s.1.pc ∈ arithmeticOpcodes name) :
    Outcome name (operandPlace s) s (Exec.step s).2 := by
  obtain ⟨c, m⟩ := s
  obtain ⟨hname, hacc⟩ := entry_of_mem hopcode
  rw [Matrix.step_eq_perform running rfl (Prod.ext hname rfl)]
  exact perform_outcome name hacc c m _

/-! ## What does not matter -/

/-- The same registers, and the same flags up to the decimal flag. -/
structure SameButDecimal (c d : Cpu) : Prop where
  a : d.a = c.a
  x : d.x = c.x
  y : d.y = c.y
  sp : d.sp = c.sp
  flags : flags d = { flags c with decimal := (flags d).decimal }

namespace SameButDecimal

variable {c c' d d' : Cpu} {v : UInt8} {carry : Bool}

/-- Sums do not ask for the decimal flag. -/
theorem added (h : SameButDecimal c c') (hd : Added c d v carry) (hd' : Added c' d' v carry) :
    SameButDecimal d d' := by
  have ha : d'.a = d.a := UInt8.toNat_inj.mp (by rw [hd'.a, hd.a, h.a])
  refine ⟨ha, by rw [hd'.x, hd.x, h.x], by rw [hd'.y, hd.y, h.y], by rw [hd'.sp, hd.sp, h.sp], ?_⟩
  rw [hd'.flags, hd.flags, h.flags, h.a, ha]

/-- Differences do not ask for it either. -/
theorem subtracted (h : SameButDecimal c c') (hd : Subtracted c d v carry)
    (hd' : Subtracted c' d' v carry) : SameButDecimal d d' := by
  have ha : d'.a = d.a := by
    have hdiff : (d'.a.toNat : Int) = d.a.toNat := by rw [hd'.a, hd.a, h.a]
    exact UInt8.toNat_inj.mp (Int.ofNat_inj.mp hdiff)
  refine ⟨ha, by rw [hd'.x, hd.x, h.x], by rw [hd'.y, hd.y, h.y], by rw [hd'.sp, hd.sp, h.sp], ?_⟩
  rw [hd'.flags, hd.flags, h.flags, h.a, ha]

theorem compared {r : UInt8} (h : SameButDecimal c c') (hd : Compared c d r v)
    (hd' : Compared c' d' r v) : SameButDecimal d d' := by
  refine ⟨by rw [hd'.a, hd.a, h.a], by rw [hd'.x, hd.x, h.x], by rw [hd'.y, hd.y, h.y],
    by rw [hd'.sp, hd.sp, h.sp], ?_⟩
  rw [hd'.flags, hd.flags, h.flags]

end SameButDecimal

/-- Outcomes depend on the operand byte, and neither on where it lies nor on the decimal flag. -/
theorem Outcome.agree {name : Mnemonic} {place place' : UInt16} {s s' t t' : Cpu × FlatMemory}
    (hname : arithmeticOpcodes name ≠ []) (hs : SameButDecimal s.1 s'.1)
    (hv : s'.2.get place' = s.2.get place) (ht : Outcome name place s t)
    (ht' : Outcome name place' s' t') :
    SameButDecimal t.1 t'.1 ∧ t'.2.get place' = t.2.get place := by
  have hcarry : (flags s'.1).carry = (flags s.1).carry := by rw [hs.flags]
  -- plain operations leave memory alone; combined ones store the same byte at either place
  cases name with
  | adc =>
    simp only [Outcome, hv, hcarry] at ht ht'
    exact ⟨hs.added ht.1 ht'.1, by rw [ht.2, ht'.2, hv]⟩
  | sbc =>
    simp only [Outcome, hv, hcarry] at ht ht'
    exact ⟨hs.subtracted ht.1 ht'.1, by rw [ht.2, ht'.2, hv]⟩
  | cmp | cpx | cpy =>
    simp only [Outcome, hv, hs.a, hs.x, hs.y] at ht ht'
    exact ⟨hs.compared ht.1 ht'.1, by rw [ht.2, ht'.2, hv]⟩
  | rra =>
    simp only [Outcome, hv, hcarry] at ht ht'
    exact ⟨hs.added ht.1 ht'.1,
      by rw [ht.2, ht'.2, FlatMemory.get_set_self, FlatMemory.get_set_self]⟩
  | isc =>
    simp only [Outcome, hv, hcarry] at ht ht'
    exact ⟨hs.subtracted ht.1 ht'.1,
      by rw [ht.2, ht'.2, FlatMemory.get_set_self, FlatMemory.get_set_self]⟩
  | dcp =>
    simp only [Outcome, hv, hs.a] at ht ht'
    exact ⟨hs.compared ht.1 ht'.1,
      by rw [ht.2, ht'.2, FlatMemory.get_set_self, FlatMemory.get_set_self]⟩
  | _ => exact absurd rfl hname

/-- **Arithmetic is that of integers, in every mode.**  Each step of an operation that counts obeys
the law of that operation on the byte at its operand's place; the listed opcodes are all there are
of it.  A machine with the same registers, and the same flags up to the decimal flag, that executes
the operation in any mode on an equal byte gets the same registers, the same flags up to the decimal
flag, and leaves an equal byte. -/
theorem arithmetic_of_integers {name : Mnemonic} {s : Cpu × FlatMemory}
    (running : s.1.halt = none) (hopcode : s.2.get s.1.pc ∈ arithmeticOpcodes name) :
    Outcome name (operandPlace s) s (Exec.step s).2 ∧
    (∀ opcode, opcode ∈ arithmeticOpcodes name ↔ (entry opcode).1 = name) ∧
    (∀ s' : Cpu × FlatMemory, s'.1.halt = none → s'.2.get s'.1.pc ∈ arithmeticOpcodes name →
      SameButDecimal s.1 s'.1 → s'.2.get (operandPlace s') = s.2.get (operandPlace s) →
      SameButDecimal (Exec.step s).2.1 (Exec.step s').2.1 ∧
        (Exec.step s').2.2.get (operandPlace s') = (Exec.step s).2.2.get (operandPlace s)) := by
  have hname := List.ne_nil_of_mem hopcode
  exact ⟨step_outcome running hopcode, mem_arithmeticOpcodes_iff hname,
    fun s' running' hopcode' hs hv =>
      (step_outcome running hopcode).agree hname hs hv (step_outcome running' hopcode')⟩

/-- A pointer to the end of a page, the byte behind that page, the same byte in page zero, and two
instructions that find them. -/
def borrowings : FlatMemory :=
  ((((FlatMemory.ofBytes #[]).load 0x0010 [0xFF, 0x02]).load 0x0020 [0xAF]).load 0x0300 [0xAF]).load
    0x8000 [0xF3, 0x10, 0xE7, 0x20]

theorem get_borrowings (addr : UInt16) :
    borrowings.get addr =
      if addr = 0x8003 then 0x20 else if addr = 0x8002 then 0xE7
      else if addr = 0x8001 then 0x10 else if addr = 0x8000 then 0xF3
      else if addr = 0x0300 then 0xAF else if addr = 0x0020 then 0xAF
      else if addr = 0x0011 then 0x02 else if addr = 0x0010 then 0xFF
      else (FlatMemory.ofBytes #[]).get addr := by
  simp [borrowings, FlatMemory.load, FlatMemory.get_set, eq_comm]

/-- Subtracting a negative byte that is larger without its sign: the byte is raised first, the
difference borrows and overflows, and neither the mode nor the decimal flag tells. -/
theorem arithmetic_of_integers_borrowings :
    let c : Cpu := { Cpu.powerOn with a := 0x50, y := 0x01, p := ⟨0x29⟩, pc := 0x8000 }
    let s := (c, borrowings)
    let s' := ({ c with p := ⟨0x21⟩, pc := 0x8002 }, borrowings)
    s.1.halt = none ∧ s.2.get s.1.pc ∈ arithmeticOpcodes .isc ∧
      operandPlace s = 0x0300 ∧ operandPlace s' = 0x0020 ∧
      (Exec.step s).2.1.a = 0xA0 ∧ (flags (Exec.step s).2.1).carry = false ∧
      (flags (Exec.step s).2.1).overflow = true ∧ (Exec.step s).2.2.get 0x0300 = 0xB0 ∧
      SameButDecimal (Exec.step s).2.1 (Exec.step s').2.1 := by
  have hget := get_borrowings
  obtain ⟨m, hm⟩ : ∃ m, borrowings = m := ⟨_, rfl⟩
  rw [hm] at hget ⊢
  intro c s s'
  have hopcode : m.get 0x8000 ∈ arithmeticOpcodes .isc := by
    rw [hget 0x8000]
    decide
  have hopcode' : m.get 0x8002 ∈ arithmeticOpcodes .isc := by
    rw [hget 0x8002]
    decide
  have hplace : operandPlace s = 0x0300 := by
    change address (entry (m.get 0x8000)).2 c m = 0x0300
    rw [hget 0x8000]
    change Matrix.past (Matrix.zeroPageWord m (m.get 0x8001).toNat) 1 = 0x0300
    rw [hget 0x8001]
    change Matrix.past (Matrix.wordAt m 0x0010 0x0011) 1 = 0x0300
    rw [Matrix.wordAt, hget 0x0010, hget 0x0011]
    rfl
  have hplace' : operandPlace s' = 0x0020 := by
    change address (entry (m.get 0x8002)).2 _ m = 0x0020
    rw [hget 0x8002]
    change Matrix.inZeroPage (m.get 0x8003).toNat = 0x0020
    rw [hget 0x8003]
    rfl
  have hv : m.get 0x0300 = 0xAF := hget 0x0300
  have hv' : m.get 0x0020 = 0xAF := hget 0x0020
  have hs : SameButDecimal s.1 s'.1 := by
    refine ⟨rfl, rfl, rfl, rfl, ?_⟩
    change Flags.ofByte 0x21 = { Flags.ofByte 0x29 with decimal := (Flags.ofByte 0x21).decimal }
    rfl
  obtain ⟨hlaw, -, hagree⟩ := arithmetic_of_integers (s := s) rfl hopcode
  obtain ⟨hsame, -⟩ := hagree s' rfl hopcode' hs (by rw [hplace, hplace']; exact hv'.trans hv.symm)
  rw [hplace] at hlaw
  obtain ⟨hsub, hmemory⟩ := hlaw
  have hsub : Subtracted c (Exec.step s).2.1 0xB0 true := by
    change Subtracted c _ (UInt8.ofNat ((m.get 0x0300).toNat + 1)) (Flags.ofByte 0x29).carry at hsub
    rw [hv] at hsub
    exact hsub
  have ha : (Exec.step s).2.1.a = 0xA0 := UInt8.toNat_inj.mp (Int.ofNat_inj.mp hsub.a)
  refine ⟨rfl, hopcode, hplace, hplace', ha, ?_, ?_, ?_, hsame⟩
  · rw [hsub.flags]
    rfl
  · rw [hsub.flags]
    rfl
  · rw [hmemory, FlatMemory.get_set_self]
    change UInt8.ofNat ((m.get 0x0300).toNat + 1) = 0xB0
    rw [hv]
    rfl

/-- A comparison sets more than carry, zero and negative where the unused bit was clear. -/
theorem compare_sets_unused :
    let c : Cpu := { Cpu.powerOn with p := ⟨0x00⟩, pc := 0x8000 }
    let m := (FlatMemory.ofBytes #[]).load 0x8000 [0xC9, 0x00]
    c.halt = none ∧ m.get c.pc = 0xC9 ∧ (flags c).unused = false ∧
      (flags (Exec.step (c, m)).2.1).unused = true ∧
      flags (Exec.step (c, m)).2.1 ≠
        { flags c with carry := true, zero := true, negative := false } := by
  intro c
  have hget : ((FlatMemory.ofBytes #[]).load 0x8000 [0xC9, 0x00]).get 0x8000 = 0xC9 := by
    simp [FlatMemory.load, FlatMemory.get_set]
  obtain ⟨m, hm⟩ : ∃ m, (FlatMemory.ofBytes #[]).load 0x8000 [0xC9, 0x00] = m := ⟨_, rfl⟩
  rw [hm] at hget ⊢
  have hopcode : m.get 0x8000 ∈ arithmeticOpcodes .cmp := by
    rw [hget]
    decide
  have hcompared : Compared c (Exec.step (c, m)).2.1 c.a _ :=
    (step_outcome (s := (c, m)) rfl hopcode).1
  have hunused : (flags (Exec.step (c, m)).2.1).unused = true := by rw [hcompared.flags]
  have hclear : (flags c).unused = false := by
    change (Flags.ofByte 0x00).unused = false
    rfl
  refine ⟨rfl, hget, hclear, hunused, fun h => ?_⟩
  rw [h] at hunused
  exact Bool.false_ne_true (hclear.symm.trans hunused)

end Famicom
