import Famicom.Proofs.Cartridge.Boards
import Famicom.Proofs.Cpu.Arithmetic
import Mathlib.Data.Nat.Digits.Lemmas

/-!
# The serial port of MMC1

MMC1 keeps the bits that wait in its serial register in one byte, above a marker that moves down as
they come in.  `SerialPort` is the port without that trick: a list of at most four waiting bits and
four registers of five bits.  A write through the ROM window either empties the list or adds a bit
to it, and the fifth bit takes the other four along into the register that its own address selects.

* `Shown.write` — one write keeps the board and the port together.
* `SerialPort.pushAll_idem` — a full sequence of writes can be repeated.
* `serial_port_refined` — a cartridge from power-on, whatever is done with it.
-/

namespace Famicom

/-! ## The port -/

/-- The number that bits spell, the lowest bit first. -/
def gathered (bits : List Bool) : Nat := Nat.ofDigits 2 (bits.map Bool.toNat)

/-- The bits that wait, in the order of their writes, and the registers that they are for. -/
structure SerialPort where
  waiting : List Bool
  control : BitVec 5
  chrBank0 : BitVec 5
  chrBank1 : BitVec 5
  prgBank : BitVec 5
  few : waiting.length ≤ 4 := by decide

namespace SerialPort

/-- No bit waits; the lower half of the ROM window is switched and the upper one fixed. -/
def powerOn : SerialPort where
  waiting := []
  control := 0x0C
  chrBank0 := 0
  chrBank1 := 0
  prgBank := 0

/-- Put a value into the register that an address of the ROM window selects. -/
def store (p : SerialPort) (addr : UInt16) (value : BitVec 5) : SerialPort :=
  if addr < 0xA000 then { p with control := value }
  else if addr < 0xC000 then { p with chrBank0 := value }
  else if addr < 0xE000 then { p with chrBank1 := value }
  else { p with prgBank := value }

/-- Let no bit wait. -/
def empty (p : SerialPort) : SerialPort := { p with waiting := [], few := Nat.zero_le 4 }

/-- Take a bit in.  The fifth bit goes into a register with the four that wait. -/
def push (p : SerialPort) (addr : UInt16) (bit : Bool) : SerialPort :=
  if h : p.waiting.length < 4 then
    { p with
      waiting := p.waiting ++ [bit]
      few := by rw [List.length_append]; exact h }
  else (p.store addr (.ofNat 5 (gathered (p.waiting ++ [bit])))).empty

/-- A write at an address.  Below the ROM window it means nothing to the port; with bit 7 it empties
the port and fixes the upper half of the window; else it brings bit 0. -/
def write (p : SerialPort) (addr : UInt16) (value : UInt8) : SerialPort :=
  if addr < 0x8000 then p
  else if 0x80 ≤ value then { p.empty with control := p.control ||| 0x0C }
  else p.push addr (value.toNat % 2 == 1)

/-- The port after an operation on its cartridge; only writes reach it. -/
def operated (p : SerialPort) : Cartridge.Operation → SerialPort
  | .act (.write addr value) => p.write addr value
  | _ => p

/-! ## Full sequences -/

/-- The bits that wait do not matter to what is stored. -/
theorem empty_store (p : SerialPort) (waiting : List Bool) (few : waiting.length ≤ 4)
    (addr : UInt16) (value : BitVec 5) :
    (store { p with waiting := waiting, few := few } addr value).empty =
      (p.store addr value).empty := by
  unfold store
  split
  · rfl
  split
  · rfl
  split <;> rfl

/-- A value that is in its register already changes nothing more. -/
theorem store_store (p : SerialPort) (addr : UInt16) (value : BitVec 5) :
    ((p.store addr value).empty.store addr value).empty = (p.store addr value).empty := by
  unfold store
  by_cases hA : addr < 0xA000
  · simp only [if_pos hA]
    rfl
  by_cases hC : addr < 0xC000
  · simp only [if_neg hA, if_pos hC]
    rfl
  by_cases hE : addr < 0xE000
  · simp only [if_neg hA, if_neg hC, if_pos hE]
    rfl
  · simp only [if_neg hA, if_neg hC, if_neg hE]
    rfl

/-- Take in bits, each with the address of its write. -/
def pushAll (p : SerialPort) (bits : List (UInt16 × Bool)) : SerialPort :=
  bits.foldl (fun p bit => p.push bit.1 bit.2) p

/-- Five bits fill one register, which the address of the fifth selects. -/
theorem pushAll_five {p : SerialPort} (h : p.waiting = []) (b₁ b₂ b₃ b₄ b₅ : UInt16 × Bool) :
    p.pushAll [b₁, b₂, b₃, b₄, b₅] =
      (p.store b₅.1 (.ofNat 5 (gathered [b₁.2, b₂.2, b₃.2, b₄.2, b₅.2]))).empty := by
  obtain ⟨waiting, control, chrBank0, chrBank1, prgBank, few⟩ := p
  cases h
  simp only [pushAll, List.foldl, push, List.length_nil, List.length_cons, List.nil_append,
    List.cons_append, Nat.reduceAdd, Nat.reduceLT, dite_true, dite_false]
  exact empty_store ⟨[], control, chrBank0, chrBank1, prgBank, few⟩ _ _ _ _

/-- A full sequence of writes into an empty port can be repeated. -/
theorem pushAll_idem {p : SerialPort} (h : p.waiting = []) {bits : List (UInt16 × Bool)}
    (hbits : bits.length = 5) : (p.pushAll bits).pushAll bits = p.pushAll bits := by
  match bits, hbits with
  | [b₁, b₂, b₃, b₄, b₅], _ =>
    rw [pushAll_five h, pushAll_five rfl, store_store]

/-- The bits that writes bring. -/
def bitsOf (writes : List (UInt16 × UInt8)) : List (UInt16 × Bool) :=
  writes.map fun w => (w.1, w.2.toNat % 2 == 1)

/-- Writes through the ROM window without bit 7 are taken in bit by bit. -/
theorem operated_writes {writes : List (UInt16 × UInt8)}
    (h : ∀ w ∈ writes, 0x8000 ≤ w.1 ∧ w.2 < 0x80) (p : SerialPort) :
    (Cartridge.Operation.writes writes).foldl operated p = p.pushAll (bitsOf writes) := by
  induction writes generalizing p with
  | nil => rfl
  | cons w rest ih =>
    obtain ⟨⟨haddr, hvalue⟩, hrest⟩ := List.forall_mem_cons.mp h
    have hpush : p.write w.1 w.2 = p.push w.1 (w.2.toNat % 2 == 1) := by
      unfold write
      rw [if_neg (UInt16.not_lt.mpr haddr), if_neg (UInt8.not_le.mpr hvalue)]
    show (Cartridge.Operation.writes rest).foldl operated (p.write w.1 w.2) =
      (p.push w.1 _).pushAll (bitsOf rest)
    rw [hpush, ih hrest]

end SerialPort

/-! ## Gathering bits -/

/-- A bit that comes later counts for more. -/
theorem gathered_append (bits : List Bool) (bit : Bool) :
    gathered (bits ++ [bit]) = gathered bits + 2 ^ bits.length * bit.toNat := by
  simp [gathered, Nat.ofDigits_append]

/-- So many bits spell a number below this. -/
theorem gathered_lt (bits : List Bool) : gathered bits < 2 ^ bits.length := by
  have hlt : ∀ n ∈ bits.map Bool.toNat, n < 2 := by
    intro n hn
    obtain ⟨bit, -, rfl⟩ := List.mem_map.mp hn
    exact bit.toNat_lt
  simpa [gathered] using Nat.ofDigits_lt_base_pow_length (by decide) hlt

namespace Board.Mmc1

/-! ## The board shows the port -/

/-- The serial register with the given bits waiting: they fill it from above, and the marker is
right below them. -/
def marked (waiting : List Bool) : Nat := (2 * gathered waiting + 1) * 2 ^ (4 - waiting.length)

/-- The board holds the registers of the port, and its waiting bits in the serial register. -/
structure Shown (p : SerialPort) (b : Mmc1) : Prop where
  shift : b.shift.toNat = marked p.waiting
  control : b.control.toNat = p.control.toNat
  chrBank0 : b.chrBank0.toNat = p.chrBank0.toNat
  chrBank1 : b.chrBank1.toNat = p.chrBank1.toNat
  prgBank : b.prgBank.toNat = p.prgBank.toNat

/-- A port is shown in one way. -/
theorem Shown.unique {p : SerialPort} {b d : Mmc1} (hb : Shown p b) (hd : Shown p d) : b = d := by
  have hsame {x y : UInt8} {n : Nat} (hx : x.toNat = n) (hy : y.toNat = n) : x = y :=
    UInt8.toNat_inj.mp (hx.trans hy.symm)
  obtain ⟨shift, control, chrBank0, chrBank1, prgBank⟩ := b
  obtain ⟨shift', control', chrBank0', chrBank1', prgBank'⟩ := d
  cases hsame hb.shift hd.shift
  cases hsame hb.control hd.control
  cases hsame hb.chrBank0 hd.chrBank0
  cases hsame hb.chrBank1 hd.chrBank1
  cases hsame hb.prgBank hd.prgBank
  rfl

/-- Registers of five bits. -/
theorem Shown.registers_lt {p : SerialPort} {b : Mmc1} (h : Shown p b) :
    b.control < 32 ∧ b.chrBank0 < 32 ∧ b.chrBank1 < 32 ∧ b.prgBank < 32 := by
  have hlt {x : UInt8} {y : BitVec 5} (hx : x.toNat = y.toNat) : x < 32 :=
    UInt8.lt_iff_toNat_lt.mpr (hx ▸ y.isLt)
  exact ⟨hlt h.control, hlt h.chrBank0, hlt h.chrBank1, hlt h.prgBank⟩

theorem shown_powerOn : Shown .powerOn powerOn := ⟨rfl, rfl, rfl, rfl, rfl⟩

/-- A bit is shifted in from above. -/
theorem toNat_shiftIn {shift : UInt8} (h : shift.toNat < 32) (value : UInt8) :
    ((shift >>> 1) ||| ((value &&& 0x01) <<< 4)).toNat =
      shift.toNat / 2 + 16 * (value.toNat % 2) := by
  have hbit : ∀ v : UInt8, v &&& 0x01 = UInt8.ofNat (v.toNat % 2) := by decide +kernel
  have hshift : ∀ s : UInt8, s.toNat < 32 → ∀ n : Fin 2,
      ((s >>> 1) ||| (UInt8.ofNat n <<< 4)).toNat = s.toNat / 2 + 16 * n := by decide +kernel
  rw [hbit]
  exact hshift shift h ⟨value.toNat % 2, Nat.mod_lt _ (by decide)⟩

section

variable {waiting : List Bool}

/-- Waiting bits and marker take the lower five places. -/
theorem marked_lt (h : waiting.length ≤ 4) : marked waiting < 32 := by
  have hlt := gathered_lt waiting
  unfold marked
  generalize waiting.length = n at *
  generalize gathered waiting = g at *
  interval_cases n <;> omega

/-- Up to four bits, the marker gives way to one more bit. -/
theorem marked_append (h : waiting.length < 4) (bit : Bool) :
    marked (waiting ++ [bit]) = marked waiting / 2 + 16 * bit.toNat ∧ marked waiting % 2 = 0 := by
  unfold marked
  rw [gathered_append, List.length_append, List.length_singleton]
  generalize waiting.length = n at *
  generalize gathered waiting = g
  generalize bit.toNat = v
  interval_cases n <;> omega

/-- With four bits waiting, the marker has reached the end, and one more bit drives it out. -/
theorem marked_full (h : waiting.length = 4) (bit : Bool) :
    gathered (waiting ++ [bit]) = marked waiting / 2 + 16 * bit.toNat ∧ marked waiting % 2 = 1 := by
  unfold marked
  rw [gathered_append, h]
  omega

end

/-- Storing a gathered value keeps board and port together. -/
theorem Shown.store {p : SerialPort} {b : Mmc1} (h : Shown p b) (addr : UInt16) {value : UInt8}
    {v : BitVec 5} (hvalue : value.toNat = v.toNat) :
    Shown (p.store addr v).empty { b.store addr value with shift := emptyShift } := by
  unfold Mmc1.store SerialPort.store
  split
  · exact ⟨rfl, hvalue, h.chrBank0, h.chrBank1, h.prgBank⟩
  split
  · exact ⟨rfl, h.control, hvalue, h.chrBank1, h.prgBank⟩
  split
  · exact ⟨rfl, h.control, h.chrBank0, hvalue, h.prgBank⟩
  · exact ⟨rfl, h.control, h.chrBank0, h.chrBank1, hvalue⟩

/-- **One write.**  Through the ROM window, a write keeps the board and the port together. -/
theorem Shown.write {p : SerialPort} {b : Mmc1} (h : Shown p b) {addr : UInt16}
    (haddr : ¬addr < 0x8000) (value : UInt8) : Shown (p.write addr value) (b.write addr value) := by
  have hbit : (value.toNat % 2 == 1).toNat = value.toNat % 2 := by
    rcases Nat.mod_two_eq_zero_or_one value.toNat with hv | hv <;> rw [hv] <;> rfl
  have hshift : b.shift.toNat < 32 := h.shift ▸ marked_lt p.few
  have htop : hasBits value 0x80 = decide (128 ≤ value.toNat) := signBit_eq value
  unfold Mmc1.write SerialPort.write
  rw [if_neg haddr, htop, hasBits_bit0]
  -- a reset, a bit that waits, or the fifth bit
  by_cases hreset : 0x80 ≤ value
  · have hreset' : 128 ≤ value.toNat := UInt8.le_iff_toNat_le.mp hreset
    rw [if_pos hreset, if_pos (decide_eq_true hreset')]
    refine ⟨rfl, ?_, h.chrBank0, h.chrBank1, h.prgBank⟩
    rw [UInt8.toNat_or, h.control, BitVec.toNat_or]
    rfl
  · have hreset' : ¬128 ≤ value.toNat := fun hle => hreset (UInt8.le_iff_toNat_le.mpr hle)
    rw [if_neg hreset, decide_eq_false hreset', if_neg Bool.false_ne_true]
    unfold SerialPort.push
    by_cases hfew : p.waiting.length < 4
    · obtain ⟨hmarked, heven⟩ := marked_append hfew (value.toNat % 2 == 1)
      have hodd : ¬b.shift.toNat % 2 = 1 := by rw [h.shift, heven]; decide
      rw [dif_pos hfew, decide_eq_false hodd, if_neg Bool.false_ne_true]
      refine ⟨?_, h.control, h.chrBank0, h.chrBank1, h.prgBank⟩
      rw [toNat_shiftIn hshift, hmarked, h.shift, hbit]
    · have hfull : p.waiting.length = 4 := Nat.le_antisymm p.few (Nat.le_of_not_lt hfew)
      obtain ⟨hmarked, hodd⟩ := marked_full hfull (value.toNat % 2 == 1)
      rw [dif_neg hfew, decide_eq_true (h.shift ▸ hodd), if_pos rfl]
      refine h.store addr ?_
      have hlt := gathered_lt (p.waiting ++ [value.toNat % 2 == 1])
      rw [List.length_append, hfull, List.length_singleton] at hlt
      rw [toNat_shiftIn hshift, h.shift, BitVec.toNat_ofNat, Nat.mod_eq_of_lt hlt, hmarked, hbit]

/-! ## Runs -/

/-- **One operation.**  Whatever is done with a cartridge, short of putting a saved state in, its
board goes on showing its port. -/
theorem Shown.operated {p : SerialPort} {b : Mmc1} (h : Shown p b) (op : Cartridge.Operation) :
    ∃ b', (Board.mmc1 b).operated op = .mmc1 b' ∧ Shown (p.operated op) b' := by
  cases op with
  | act a =>
    cases a with
    | write addr value =>
      show ∃ b', _ ∧ Shown (p.write addr value) b'
      rw [Board.operated_write_eq (by simp)]
      by_cases hlow : addr < 0x8000
      · -- Neither the work RAM nor the rest below the window is the port's.
        have hport : p.write addr value = p := if_pos hlow
        exact ⟨b, if_pos hlow, hport.symm ▸ h⟩
      · exact ⟨b.write addr value, if_neg hlow, h.write hlow value⟩
    | ticks cycles => exact ⟨b, Function.iterate_fixed rfl cycles, h⟩
    | _ => exact ⟨b, rfl, h⟩
  | _ => exact ⟨b, rfl, h⟩

/-- A whole run of operations, by induction over it. -/
theorem Shown.run {p : SerialPort} {b : Mmc1} (h : Shown p b) (ops : List Cartridge.Operation) :
    ∃ b', ops.foldl Board.operated (.mmc1 b) = .mmc1 b' ∧
      Shown (ops.foldl SerialPort.operated p) b' := by
  induction ops generalizing p b with
  | nil => exact ⟨b, rfl, h⟩
  | cons op rest ih =>
    obtain ⟨b', hboard, hshown⟩ := h.operated op
    rw [List.foldl_cons, List.foldl_cons, hboard]
    exact ih hshown

end Board.Mmc1

/-! ## Cartridges -/

namespace Cartridge

open Board.Mmc1 in
/-- A full sequence of writes can be repeated when no bit waits. -/
theorem run_writes_twice {c : Cartridge} {b : Board.Mmc1} {p : SerialPort}
    (hboard : c.board = .mmc1 b) (hshown : Shown p b) (hempty : p.waiting = [])
    {writes : List (UInt16 × UInt8)} (hfive : writes.length = 5)
    (hwrites : ∀ w ∈ writes, 0x8000 ≤ w.1 ∧ w.2 < 0x80) :
    let once := (c.run (Operation.writes writes)).2
    (once.run (Operation.writes writes)).2 = once := by
  intro once
  have hregisters : ∀ w ∈ writes, isWorkRam w.1 = false :=
    fun w hw => isWorkRam_eq_false (hwrites w hw).1
  obtain ⟨b₁, hboard₁, hshown₁⟩ := hshown.run (Operation.writes writes)
  obtain ⟨b₂, hboard₂, hshown₂⟩ := hshown₁.run (Operation.writes writes)
  -- both times the port ends alike, and a port is shown in one way
  have hsame : b₂ = b₁ := by
    rw [SerialPort.operated_writes hwrites, SerialPort.operated_writes hwrites,
      SerialPort.pushAll_idem hempty (by rw [SerialPort.bitsOf, List.length_map, hfive])] at hshown₂
    rw [SerialPort.operated_writes hwrites] at hshown₁
    exact hshown₂.unique hshown₁
  have honce : once = { c with board := .mmc1 b₁ } := by
    rw [← hboard₁, ← hboard]
    exact run_writes hregisters c
  rw [run_writes hregisters, honce, hboard₂, hsame]

/-- **The serial port.**  Whatever is done with an MMC1 cartridge from power-on, short of putting a
saved state in, its registers are those of the port that saw the writes.  They have five bits, and
when no bit waits, a full sequence of writes can be made twice: nothing in the cartridge tells the
difference. -/
theorem serial_port_refined {i : Image} (hmapper : i.mapper = 1) {made : Cartridge}
    (hmade : ofImage i = .ok made) {ops : List Operation}
    (hops : ∀ op ∈ ops, op.restores = false) :
    let c := (made.run ops).2
    let p := ops.foldl SerialPort.operated .powerOn
    (∃ b, c.board = .mmc1 b ∧ b.Shown p ∧
      b.control < 32 ∧ b.chrBank0 < 32 ∧ b.chrBank1 < 32 ∧ b.prgBank < 32) ∧
    (p.waiting = [] → ∀ writes : List (UInt16 × UInt8), writes.length = 5 →
      (∀ w ∈ writes, 0x8000 ≤ w.1 ∧ w.2 < 0x80) →
      let once := (c.run (Operation.writes writes)).2
      (once.run (Operation.writes writes)).2 = once) := by
  intro c p
  have hpower : made.board = .mmc1 .powerOn := by
    rw [board_ofImage hmade, Board.powerOn, hmapper]
    rfl
  obtain ⟨b, hboard, hshown⟩ := Board.Mmc1.shown_powerOn.run ops
  have hc : c.board = .mmc1 b := by
    rw [← hboard, ← hpower]
    exact board_run hops made
  refine ⟨⟨b, hc, hshown, hshown.registers_lt⟩, ?_⟩
  intro hempty writes hfive hwrites
  exact run_writes_twice hc hshown hempty hfive hwrites

/-- Two bits wait when a reset drops them; five bits then arrive at changing addresses, and the last
address takes them all. -/
theorem serial_port_refined_interrupted :
    let writes : List (UInt16 × UInt8) :=
      [(0x8000, 1), (0xA000, 0), (0xFFFF, 1), (0x8000, 0), (0xC123, 1)]
    let before := Operation.writes [(0x8000, 1), (0x6000, 0x80), (0x8000, 1), (0x8000, 0x80)]
    ∃ c, ofImage { copier with mapper := 1 } = .ok c ∧
      (∃ b, (c.run (before ++ Operation.writes writes)).2.board = .mmc1 b ∧
        b.chrBank1 = 0b10101 ∧ b.control = 0x0C) ∧
      let once := ((c.run before).2.run (Operation.writes writes)).2
      (once.run (Operation.writes writes)).2 = once := by
  intro writes before
  have hbefore : ∀ op ∈ before, op.restores = false := by decide
  have hall : ∀ op ∈ before ++ Operation.writes writes, op.restores = false := by decide
  have hempty : (before.foldl SerialPort.operated .powerOn).waiting = [] := by decide
  have hwindow : writes.all (fun w => decide (0x8000 ≤ w.1 ∧ w.2 < 0x80)) = true := by decide
  have hwrites : ∀ w ∈ writes, 0x8000 ≤ w.1 ∧ w.2 < 0x80 :=
    fun w hw => of_decide_eq_true (List.all_eq_true.mp hwindow w hw)
  refine ⟨_, rfl, ?_, ?_⟩
  · obtain ⟨⟨b, hboard, hshown, -⟩, -⟩ :=
      serial_port_refined (i := { copier with mapper := 1 }) rfl rfl hall
    refine ⟨b, hboard, ?_, ?_⟩
    · exact UInt8.toNat_inj.mp (hshown.chrBank1.trans (by decide))
    · exact UInt8.toNat_inj.mp (hshown.control.trans (by decide))
  · exact (serial_port_refined (i := { copier with mapper := 1 }) rfl rfl hbefore).2 hempty writes
      rfl hwrites

end Cartridge

end Famicom
