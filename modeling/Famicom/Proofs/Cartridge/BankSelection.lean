import Famicom.Proofs.Cartridge.LastBank
import Mathlib.Algebra.Group.Nat.Defs

/-!
# Selecting a bank

Each board has its own way of being asked for a bank of program ROM: one write anywhere in the ROM
window, one at the address of a register, a write that chooses the register before one that fills
it, or five writes that bring a bit each.  The bank is a field of the value that is written, and
counts round the banks that the ROM has.

* `Board.Selects` — the writes by which a board is asked for a bank.
* `Selects.showsLow` — after them the lowest window shows it.
* `Selects.again` — making them again changes nothing.
* `selects_bank` — every cartridge, in any state.
-/

namespace Famicom

namespace Board

/-! ## Asking for a bank -/

/-- The bank in the value written to a board that switches the whole ROM window. -/
def Wide.Model.bankField : Wide.Model → UInt8 → Nat
  | axrom, value => value.toNat % 8
  | colorDreams, value => value.toNat % 4
  | gxrom, value => value.toNat / 16 % 4

/-- The bit of a value that the given one of five serial writes brings. -/
def Mmc1.serialBit (value : UInt8) (n : Nat) : UInt8 := (value >>> UInt8.ofNat n) &&& 0x01

/-- Five writes that bring the low bits of a value to the register behind an address. -/
def Mmc1.serialWrites (addr : UInt16) (value : UInt8) : List (UInt16 × UInt8) :=
  [(addr, serialBit value 0), (addr, serialBit value 1), (addr, serialBit value 2),
    (addr, serialBit value 3), (addr, serialBit value 4)]

/-- By these writes a board is asked for this bank with this value.  MMC1 has to be ready for the
first of five bits, and to switch the lower half of the ROM window. -/
inductive Selects (value : UInt8) : Board → List (UInt16 × UInt8) → Nat → Prop
  | uxrom {b : Discrete} (hmodel : b.model = .uxrom) {addr : UInt16} (h : Image.romStart ≤ addr) :
      Selects value (.discrete b) [(addr, value)] value.toNat
  | wide (b : Wide) {addr : UInt16} (h : Image.romStart ≤ addr) :
      Selects value (.wide b) [(addr, value)] (b.model.bankField value)
  | mmc1 {b : Mmc1} (hmode : b.control.toNat / 4 % 4 = 3) (hempty : b.shift = Mmc1.emptyShift) :
      Selects value (.mmc1 b) (Mmc1.serialWrites 0xE000 value) (value.toNat % 16)
  | mmc3 (b : Mmc3) : Selects value (.mmc3 b) [(0x8000, 6), (0x8001, value)] (value.toNat % 64)
  | mmc2 (b : Mmc2) : Selects value (.mmc2 b) [(0xA000, value)] (value.toNat % 16)
  | ffe (b : Ffe) : Selects value (.ffe b) [(0x4504, value)] value.toNat

/-- The board after writes. -/
def written (board : Board) (writes : List (UInt16 × UInt8)) : Board :=
  (Cartridge.Operation.writes writes).foldl operated board

/-- A write through the ROM window goes to the registers of any board that has them there. -/
theorem written_window {board : Board} (hboard : ∀ b, board ≠ .ffe b) {addr : UInt16}
    (h : Image.romStart ≤ addr) (value : UInt8) (rest : List (UInt16 × UInt8)) :
    board.written ((addr, value) :: rest) = (board.writeWindow addr value).written rest := by
  have hfirst : board.operated (.act (.write addr value)) = board.writeWindow addr value := by
    rw [operated_write_eq hboard, if_neg (UInt16.not_lt.mpr h)]
  exact congrArg (fun board : Board => board.written rest) hfirst

/-! ### Serial writes -/

namespace Mmc1

/-- The serial register when so many bits of a value were shifted in. -/
def gatheredShift (value : UInt8) : Nat → UInt8
  | 0 => emptyShift
  | n + 1 => (gatheredShift value n >>> 1) ||| ((serialBit value n &&& 0x01) <<< 4)

/-- The marker reaches the lowest place with the fourth bit. -/
theorem gatheredShift_marker : ∀ value : UInt8, ∀ n ≤ 4,
    hasBits (gatheredShift value n) 0x01 = decide (n = 4) := by
  decide +kernel

/-- After five bits the register holds the low five bits of the value. -/
theorem gatheredShift_five : ∀ value : UInt8, gatheredShift value 5 = value &&& 0x1F := by
  decide +kernel

/-- A bit that is shifted in does not reset the serial register. -/
theorem serialBit_low : ∀ value : UInt8, ∀ n < 5, hasBits (serialBit value n) 0x80 = false := by
  decide +kernel

/-- Up to the fourth, a bit is shifted in. -/
theorem write_serialBit {b : Mmc1} {value : UInt8} {n : Nat} (hn : n < 4)
    (hshift : b.shift = gatheredShift value n) (addr : UInt16) :
    b.write addr (serialBit value n) = { b with shift := gatheredShift value (n + 1) } := by
  have hlow := serialBit_low value n (Nat.lt_succ_of_lt hn)
  have hmarker := gatheredShift_marker value n (Nat.le_of_lt hn)
  unfold write
  rw [hlow, if_neg Bool.false_ne_true, hshift, hmarker, decide_eq_false (Nat.ne_of_lt hn),
    if_neg Bool.false_ne_true]
  rfl

/-- The fifth bit takes the others along into the register that its address selects. -/
theorem write_fifthBit {b : Mmc1} {value : UInt8} (hshift : b.shift = gatheredShift value 4)
    (addr : UInt16) :
    b.write addr (serialBit value 4) =
      { b.store addr (value &&& 0x1F) with shift := emptyShift } := by
  have hlow := serialBit_low value 4 (by decide)
  have hmarker := gatheredShift_marker value 4 (Nat.le_refl 4)
  unfold write
  rw [hlow, if_neg Bool.false_ne_true, hshift, hmarker, decide_eq_true rfl, if_pos rfl,
    ← gatheredShift_five]
  rfl

/-- Five writes at the top of the ROM window fill the program bank register. -/
theorem written_serialWrites {b : Mmc1} (hempty : b.shift = emptyShift) (value : UInt8) :
    (Board.mmc1 b).written (serialWrites 0xE000 value) =
      .mmc1 { b with prgBank := value &&& 0x1F } := by
  have hwritten (b : Mmc1) (value : UInt8) (rest : List (UInt16 × UInt8)) :
      (Board.mmc1 b).written ((0xE000, value) :: rest) =
        (Board.mmc1 (b.write 0xE000 value)).written rest :=
    written_window (by simp) (by decide) value rest
  have hfour : ((((b.write 0xE000 (serialBit value 0)).write 0xE000 (serialBit value 1)).write
      0xE000 (serialBit value 2)).write 0xE000 (serialBit value 3)) =
        { b with shift := gatheredShift value 4 } := by
    rw [write_serialBit (n := 0) (by decide) hempty, write_serialBit (n := 1) (by decide) rfl,
      write_serialBit (n := 2) (by decide) rfl, write_serialBit (n := 3) (by decide) rfl]
  rw [serialWrites, hwritten, hwritten, hwritten, hwritten, hwritten, hfour, write_fifthBit rfl,
    ← hempty]
  rfl

end Mmc1

/-! ### Other writes -/

theorem written_uxrom (b : Discrete) {addr : UInt16} (h : Image.romStart ≤ addr) (value : UInt8) :
    (Board.discrete b).written [(addr, value)] = .discrete (b.write value) :=
  written_window (by simp) h value []

theorem written_wide (b : Wide) {addr : UInt16} (h : Image.romStart ≤ addr) (value : UInt8) :
    (Board.wide b).written [(addr, value)] = .wide (b.write value) :=
  written_window (by simp) h value []

/-- The first write chooses the bank register, the second one fills it with six bits. -/
theorem written_mmc3 (b : Mmc3) (value : UInt8) :
    (Board.mmc3 b).written [(0x8000, 6), (0x8001, value)] = .mmc3 { b with
      regs := { b.regs with
        bankSelect := 6
        banks := b.regs.banks.set 6 (value &&& 0x3F) (by decide) } } := by
  have heven : ((0x8000 : UInt16) &&& 1 == 0) = true := by decide
  have hodd : ((0x8001 : UInt16) &&& 1 == 0) = false := by decide
  have hselect : b.regs.write 0x8000 6 = { b.regs with bankSelect := 6 } := by
    simp [Mmc3.Registers.write, heven]
  have hfill (r : Mmc3.Registers) (h : r.bankSelect = 6) :
      r.write 0x8001 value = { r with
        banks := r.banks.set 6 (value &&& 0x3F) (by decide) } := by
    simp [Mmc3.Registers.write, hodd, Mmc3.Registers.keptBank, h]
  rw [written_window (by simp) (by decide), writeWindow, hselect,
    written_window (by simp) (by decide), writeWindow, hfill _ rfl]
  rfl

theorem written_mmc2 (b : Mmc2) (value : UInt8) :
    (Board.mmc2 b).written [(0xA000, value)] =
      .mmc2 { b with regs := { b.regs with prgBank := value &&& 0x0F } } := by
  have hfill : b.regs.write 0xA000 value = { b.regs with prgBank := value &&& 0x0F } := by
    simp [Mmc2.Registers.write]
  rw [written_window (by simp) (by decide), writeWindow, hfill]
  rfl

/-- The registers of the board of disk copiers lie below the ROM window. -/
theorem written_ffe (b : Ffe) (value : UInt8) :
    (Board.ffe b).written [(0x4504, value)] =
      .ffe { b with prgBanks := b.prgBanks.set 0 value } := by
  have hfill : b.write 0x4504 value = { b with prgBanks := b.prgBanks.set 0 value } := by
    simp [Ffe.write]
  have hregister : Cartridge.isWorkRam 0x4504 = false := by decide
  exact (operated_write (.ffe b) hregister value).trans (congrArg Board.ffe hfill)

/-! ## The lowest window -/

/-- Addresses of the lowest window lie below every bound that the windows of the board have. -/
theorem lt_of_low (unit : Nat) {board : Board} (hunit : board.prgUnit = unit)
    {addr bound : UInt16} (hwindow : addr.toNat < Image.romStart.toNat + board.prgUnit)
    (hbound : Image.romStart.toNat + unit ≤ bound.toNat) : addr < bound :=
  UInt16.lt_iff_toNat_lt.mpr (Nat.lt_of_lt_of_le (hunit ▸ hwindow) hbound)

/-- The low bits of a value, as a number. -/
theorem toNat_field {mask : UInt8} (k : Nat) (hmask : mask.toNat = 2 ^ k - 1) (value : UInt8) :
    (value &&& mask).toNat = value.toNat % 2 ^ k := by
  rw [UInt8.toNat_and, hmask, Nat.and_two_pow_sub_one_eq_mod]

/-- The bank field is where the model has it in the value. -/
theorem Wide.toNat_prgBank (b : Wide) (value : UInt8) :
    (b.write value).regs.prgBank.toNat = b.model.bankField value := by
  obtain ⟨model, regs⟩ := b
  cases model with
  | axrom => exact toNat_field 3 rfl value
  | colorDreams => exact toNat_field 2 rfl value
  | gxrom =>
    have hhigh : (value >>> 4).toNat = value.toNat / 16 := by
      rw [UInt8.toNat_shiftRight, Nat.shiftRight_eq_div_pow]
      rfl
    exact (toNat_field 2 rfl _).trans (congrArg (· % 4) hhigh)

section

variable {value : UInt8} {board : Board} {writes : List (UInt16 × UInt8)} {bank : Nat}

/-- Asked for a bank, a board shows it in its lowest window. -/
theorem Selects.showsLow (h : Selects value board writes bank) (size : Nat) {addr : UInt16}
    (hstart : Image.romStart ≤ addr)
    (hwindow : addr.toNat < Image.romStart.toNat + board.prgUnit) :
    (board.written writes).prgOffset? size addr =
      some (Banks.offset size board.prgUnit bank addr) := by
  have hlow : ¬addr < Image.romStart := UInt16.not_lt.mpr hstart
  -- what the writes leave in the registers is looked up by the lowest window of each board
  cases h with
  | @uxrom b hmodel at' h =>
    obtain ⟨model, mirroring, regs⟩ := b
    cases hmodel
    have hC : addr < 0xC000 := lt_of_low 0x4000 rfl hwindow (by decide)
    rw [written_uxrom _ h, prgOffset?, if_neg hlow]
    simp only [Discrete.write, Discrete.prgBank, hC, if_true]
    rfl
  | wide b h =>
    rw [written_wide b h, prgOffset?, if_neg hlow]
    simp only [b.toNat_prgBank]
    rfl
  | @mmc1 b hmode hempty =>
    have hC : addr < 0xC000 := lt_of_low 0x4000 rfl hwindow (by decide)
    have hfield : (value &&& 0x1F).toNat % 16 = value.toNat % 16 := by
      rw [toNat_field 5 rfl]
      exact Nat.mod_mod_of_dvd _ (by decide)
    rw [Mmc1.written_serialWrites hempty, prgOffset?, if_neg hlow]
    simp only [Mmc1.prgBankAt, hmode, hC, if_true, hfield]
    rfl
  | mmc3 b =>
    have hA : addr < 0xA000 := lt_of_low 0x2000 rfl hwindow (by decide)
    have hfield : (value &&& 0x3F).toNat = value.toNat % 64 := toNat_field 6 rfl value
    have hplain : hasBits 6 0x40 = false := by decide
    rw [written_mmc3, prgOffset?, if_neg hlow]
    simp only [Mmc3.prgBankAt, hplain, Bool.false_eq_true, hA, if_true, if_false,
      Vector.getElem_set_self, hfield]
    rfl
  | mmc2 b =>
    have hfield : (value &&& 0x0F).toNat = value.toNat % 16 := toNat_field 4 rfl value
    rw [written_mmc2, prgOffset?, if_neg hlow]
    obtain ⟨model, regs⟩ := b
    cases model with
    | mmc2 =>
      have hA : addr < 0xA000 := lt_of_low 0x2000 rfl hwindow (by decide)
      simp only [Mmc2.prgBankAt, hA, if_true, hfield]
      rfl
    | mmc4 =>
      have hC : addr < 0xC000 := lt_of_low 0x4000 rfl hwindow (by decide)
      simp only [Mmc2.prgBankAt, hC, if_true, hfield]
      rfl
  | ffe b =>
    have hA : addr < 0xA000 := lt_of_low 0x2000 rfl hwindow (by decide)
    have hfirst : addr.toNat / 0x2000 % 4 = 0 := by
      have hfrom : 0x8000 ≤ addr.toNat := UInt16.le_iff_toNat_le.mp hstart
      have hto : addr.toNat < 0xA000 := UInt16.lt_iff_toNat_lt.mp hA
      omega
    rw [written_ffe, prgOffset?, if_neg hlow]
    simp only [Ffe.prgBankAt, hfirst, Vector.getElem_set_self]
    rfl

/-- Asked for the same bank again, a board stays as it is. -/
theorem Selects.again (h : Selects value board writes bank) :
    (board.written writes).written writes = board.written writes := by
  cases h with
  | uxrom hmodel h =>
    rw [written_uxrom _ h, written_uxrom _ h]
    rfl
  | wide b h =>
    rw [written_wide b h, written_wide _ h]
    obtain ⟨model, regs⟩ := b
    cases model <;> rfl
  | @mmc1 b hmode hempty =>
    -- the fifth bit empties the serial register, so that the board is ready again
    have hfilled : ({ b with prgBank := value &&& 0x1F } : Mmc1).shift = Mmc1.emptyShift := hempty
    rw [Mmc1.written_serialWrites hempty, Mmc1.written_serialWrites hfilled]
  | mmc3 b =>
    rw [written_mmc3, written_mmc3]
    simp only [Vector.set_set]
  | mmc2 b => rw [written_mmc2, written_mmc2]
  | ffe b =>
    rw [written_ffe, written_ffe]
    simp only [Vector.set_set]

/-- No board has its bank register in the work RAM. -/
theorem Selects.outside (h : Selects value board writes bank) :
    ∀ w ∈ writes, Cartridge.isWorkRam w.1 = false := by
  cases h with
  | uxrom _ h | wide _ h =>
    rintro _ hw
    rw [List.mem_singleton.mp hw]
    exact Cartridge.isWorkRam_eq_false h
  | mmc1 _ _ =>
    simp only [Mmc1.serialWrites, List.forall_mem_cons, List.not_mem_nil, false_implies,
      implies_true, and_true]
    decide
  | mmc3 _ | mmc2 _ | ffe _ =>
    simp only [List.forall_mem_cons, List.not_mem_nil, false_implies, implies_true, and_true]
    decide

end

end Board

/-! ## Cartridges -/

namespace Cartridge

/-- **Bank selection.**  A cartridge whose program ROM has whole banks, in any state: when its board
is asked for a bank, all of the lowest window shows that bank, counted round those there are.  To
ask again changes nothing. -/
theorem selects_bank {c : Cartridge} {value : UInt8} {writes : List (UInt16 × UInt8)} {bank : Nat}
    (hsize : c.board.prgUnit ∣ c.prg.size) (h : c.board.Selects value writes bank) :
    let unit := c.board.prgUnit
    let once := (c.run (Operation.writes writes)).2
    (∀ addr, Image.romStart ≤ addr → addr.toNat < Image.romStart.toNat + unit →
      c.prg.bytes[bank % (c.prg.size / unit) * unit + addr.toNat % unit]? = some (once.read addr)) ∧
    (once.run (Operation.writes writes)).2 = once := by
  intro unit once
  have honce : once = { c with board := c.board.written writes } := run_writes h.outside c
  constructor
  · intro addr hstart hwindow
    have hoffset : once.prgOffset? addr =
        some (bank % (c.prg.size / unit) * unit + addr.toNat % unit) := by
      rw [honce]
      refine (h.showsLow c.prg.size hstart hwindow).trans (congrArg some ?_)
      rw [Banks.offset_eq hsize c.prg.size_pos, Banks.count_eq_div hsize c.prg.size_pos]
    have hprg : once.prg = c.prg := by rw [honce]
    have hread := read_of_prgOffset? hoffset
    rwa [hprg] at hread
  · rw [honce, run_writes h.outside]
    exact congrArg (fun board => ({ c with board } : Cartridge)) h.again

/-- Memory of some banks, each filled with its number. -/
def numbered (banks unit : Nat) : Array UInt8 :=
  Array.ofFn fun n : Fin (banks * unit) => UInt8.ofNat (n.val / unit)

theorem size_numbered (banks unit : Nat) : (numbered banks unit).size = banks * unit :=
  Array.size_ofFn

/-- Each byte of a bank is the number of the bank. -/
theorem getElem?_numbered {banks unit bank : Nat} (h : bank < banks) {inside : Nat}
    (hinside : inside < unit) :
    (numbered banks unit)[bank * unit + inside]? = some (UInt8.ofNat bank) := by
  have hlt : bank * unit + inside < banks * unit :=
    calc bank * unit + inside
      _ < bank * unit + unit := Nat.add_lt_add_left hinside _
      _ = (bank + 1) * unit := (Nat.succ_mul bank unit).symm
      _ ≤ banks * unit := Nat.mul_le_mul_right unit h
  have hbank : (bank * unit + inside) / unit = bank := by
    rw [Nat.mul_comm, Nat.mul_add_div (Nat.zero_lt_of_lt hinside), Nat.div_eq_of_lt hinside,
      Nat.add_zero]
  rw [numbered, Array.getElem?_ofFn, dif_pos hlt, hbank]

/-- MMC1 with three banks, after a bit that was shifted in and thrown away: bank 13 is the second
one, counted round. -/
theorem selects_bank_numbered :
    ∃ i made, Image.cartridge 1 (numbered 3 0x4000) #[] = .ok i ∧ ofImage i = .ok made ∧
      let c := (made.run (Operation.writes [(0x8000, 1), (0xC000, 0x80)])).2
      let once := (c.run (Operation.writes (Board.Mmc1.serialWrites 0xE000 0x1D))).2
      once.read 0x8005 = 1 ∧ once.read 0xBFFF = 1 ∧
      (once.run (Operation.writes (Board.Mmc1.serialWrites 0xE000 0x1D))).2 = once := by
  have hrom : (numbered 3 0x4000).size = 3 * 0x4000 := size_numbered 3 0x4000
  obtain ⟨i, haccepted, hmapper, hprg, -⟩ :=
    Image.exists_cartridge 1 (numbered 3 0x4000) #[]
      (by rw [hrom]; decide) (by rw [hrom]; decide) (by decide)
  obtain ⟨made, hmade⟩ : ∃ made, ofImage i = .ok made :=
    ⟨_, dif_pos (by rw [hprg, hrom]; decide)⟩
  refine ⟨i, made, haccepted, hmade, ?_⟩
  intro c once
  -- the reset leaves nothing of the bit that was shifted in
  have hc : c = { made with board := .mmc1 .powerOn } := by
    have hpower : made.board = .mmc1 .powerOn := by
      rw [board_ofImage hmade, Board.powerOn, hmapper]
      rfl
    have houtside : ∀ w ∈ [((0x8000 : UInt16), (1 : UInt8)), (0xC000, 0x80)],
        isWorkRam w.1 = false := by
      simp only [List.forall_mem_cons, List.not_mem_nil, false_implies, implies_true, and_true]
      decide
    have hwrites : c = _ := run_writes houtside made
    rw [hwrites, hpower]
    rfl
  have hbytes : c.prg.bytes = numbered 3 0x4000 := by rw [hc, prg_ofImage hmade, hprg]
  have hsize : c.prg.size = 3 * 0x4000 := (congrArg Array.size hbytes).trans hrom
  have hselects : c.board.Selects 0x1D (Board.Mmc1.serialWrites 0xE000 0x1D) 13 := by
    rw [hc]
    exact .mmc1 rfl rfl
  have hunit : c.board.prgUnit = 0x4000 := by rw [hc]; rfl
  obtain ⟨hshows, hagain⟩ := selects_bank (by rw [hunit, hsize]; decide) hselects
  rw [hunit, hsize, hbytes] at hshows
  have hread (addr : UInt16) (hstart : Image.romStart ≤ addr)
      (hwindow : addr.toNat < Image.romStart.toNat + 0x4000) : once.read addr = 1 := by
    have hshown := hshows addr hstart hwindow
    rw [Nat.mul_div_cancel 3 (by decide),
      getElem?_numbered (by decide) (Nat.mod_lt _ (by decide))] at hshown
    exact (Option.some.inj hshown).symm
  exact ⟨hread _ (by decide) (by decide), hread _ (by decide) (by decide), hagain⟩

end Cartridge

end Famicom
