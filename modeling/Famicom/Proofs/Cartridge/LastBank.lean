import Famicom.Cpu.Execute
import Famicom.Proofs.Cartridge.Boards

/-!
# Where the end of program ROM appears

The processor takes its reset vector from the top of its address space, so most boards wire the
topmost window to the last bank of program ROM.  There may be any number of banks: the boards that
are wired so count them, while the board of disk copiers keeps bank numbers in registers of eight
bits, into which the number of the last bank has to fit.

* `Banks.offset_eq`, `Banks.offset_last` — what a window shows when the ROM has whole banks.
* `Board.prgOffset?_top` — the boards whose topmost window shows the last bank.
* `Board.Ffe.prgBankAt_powerOn` — the windows of the board of disk copiers at power-on.
* `shows_end_of_rom` — cartridges from power-on, and whatever is done with them.
-/

namespace Famicom

/-! ## Whole banks -/

namespace Banks

variable {size unit : Nat}

/-- Whole banks are counted by division. -/
theorem count_eq_div (h : unit ∣ size) (hsize : 0 < size) : count size unit = size / unit := by
  have hunit : 0 < unit := Nat.pos_of_dvd_of_pos h hsize
  exact Nat.max_eq_left (Nat.div_pos (Nat.le_of_dvd hsize h) hunit)

theorem count_mul (h : unit ∣ size) (hsize : 0 < size) : count size unit * unit = size := by
  rw [count_eq_div h hsize, Nat.div_mul_cancel h]

/-- When the memory has whole banks, only the number of the bank wraps. -/
theorem offset_eq (h : unit ∣ size) (hsize : 0 < size) (bank : Nat) (addr : UInt16) :
    offset size unit bank addr = bank % count size unit * unit + addr.toNat % unit := by
  have hbank : bank % count size unit < count size unit := Nat.mod_lt _ (count_pos size unit)
  have hinside : addr.toNat % unit < unit := Nat.mod_lt _ (Nat.pos_of_dvd_of_pos h hsize)
  refine Nat.mod_eq_of_lt ?_
  calc bank % count size unit * unit + addr.toNat % unit
    _ < bank % count size unit * unit + unit := Nat.add_lt_add_left hinside _
    _ = (bank % count size unit + 1) * unit := (Nat.succ_mul _ unit).symm
    _ ≤ count size unit * unit := Nat.mul_le_mul_right unit hbank
    _ = size := count_mul h hsize

/-- An address lies as far below the top of its window as below the top of all addresses. -/
theorem mod_eq_of_top (htop : unit ∣ 0x10000) {addr : UInt16}
    (haddr : 0x10000 ≤ addr.toNat + unit) : addr.toNat % unit = addr.toNat + unit - 0x10000 := by
  have hlt := addr.toNat_lt
  obtain ⟨k, hk⟩ := htop
  cases k with
  | zero => simp at hk
  | succ k =>
    rw [Nat.mul_succ] at hk
    have hsplit : addr.toNat = unit * k + (addr.toNat + unit - 0x10000) := by omega
    have hrest : addr.toNat + unit - 0x10000 < unit := by omega
    calc addr.toNat % unit
      _ = (unit * k + (addr.toNat + unit - 0x10000)) % unit := by rw [← hsplit]
      _ = (addr.toNat + unit - 0x10000) % unit := Nat.mul_add_mod ..
      _ = addr.toNat + unit - 0x10000 := Nat.mod_eq_of_lt hrest

/-- A window at the top of all addresses shows the end of the memory, if it shows the last bank. -/
theorem offset_last (h : unit ∣ size) (hsize : 0 < size) (htop : unit ∣ 0x10000) {addr : UInt16}
    (haddr : 0x10000 ≤ addr.toNat + unit) :
    offset size unit (last size unit) addr = size + addr.toNat - 0x10000 := by
  have hlast : last size unit < count size unit :=
    Nat.sub_one_lt (Nat.ne_of_gt (count_pos size unit))
  have hend : last size unit * unit + unit = size := by
    rw [← Nat.succ_mul, last, Nat.succ_eq_add_one, Nat.sub_add_cancel (count_pos size unit),
      count_mul h hsize]
  rw [offset_eq h hsize, Nat.mod_eq_of_lt hlast, mod_eq_of_top htop haddr]
  omega

end Banks

/-! ## Boards -/

namespace Board

/-- Windows are 8, 16 or 32 KiB wide. -/
theorem prgUnit_cases (board : Board) :
    board.prgUnit = 0x2000 ∨ board.prgUnit = 0x4000 ∨ board.prgUnit = 0x8000 := by
  cases board with
  | mmc3 b | ffe b => exact .inl rfl
  | fixed b | mmc1 b => exact .inr (.inl rfl)
  | wide b => exact .inr (.inr rfl)
  | discrete b =>
    obtain ⟨model, mirroring, regs⟩ := b
    cases model with
    | uxrom => exact .inr (.inl rfl)
    | cnrom => exact .inr (.inr rfl)
  | mmc2 b =>
    obtain ⟨model, regs⟩ := b
    cases model with
    | mmc2 => exact .inl rfl
    | mmc4 => exact .inr (.inl rfl)

theorem prgUnit_dvd (board : Board) : board.prgUnit ∣ 0x10000 := by
  rcases board.prgUnit_cases with h | h | h <;> rw [h] <;> decide

theorem le_prgUnit (board : Board) : 0x2000 ≤ board.prgUnit := by
  rcases board.prgUnit_cases with h | h | h <;> rw [h] <;> decide

/-- The topmost window shows the last bank, whatever is in the registers. -/
def fixesTop : Board → Bool
  | discrete b => b.model = .uxrom
  | mmc3 _ | mmc2 _ => true
  | _ => false

/-- The topmost window shows the last bank.  On MMC1 the control register decides that. -/
def topIsLast : Board → Bool
  | mmc1 b => b.control.toNat / 4 % 4 == 3
  | board => board.fixesTop

/-- What a board is wired for holds in every state of it. -/
theorem topIsLast_of_fixesTop {board : Board} (h : board.fixesTop = true) :
    board.topIsLast = true := by
  cases board with
  | mmc1 b => cases h
  | _ => exact h

/-- Registers do not change how a board is wired. -/
theorem install?_fixesTop {board installed : Board} {r : Registers}
    (h : board.install? r = some installed) : installed.fixesTop = board.fixesTop := by
  cases board <;> cases r <;> cases h <;> rfl

theorem install?_prgUnit {board installed : Board} {r : Registers}
    (h : board.install? r = some installed) : installed.prgUnit = board.prgUnit := by
  cases board <;> cases r <;> cases h <;> rfl

/-- Addresses of a window at the top of all addresses lie above every bound of another window. -/
theorem not_lt_of_top (unit : Nat) {addr bound : UInt16} (haddr : 0x10000 ≤ addr.toNat + unit)
    (hbound : bound.toNat + unit ≤ 0x10000) : ¬addr < bound := by
  rw [UInt16.lt_iff_toNat_lt]
  omega

/-- The topmost window of most boards. -/
theorem prgOffset?_top {board : Board} (h : board.topIsLast = true) (size : Nat) {addr : UInt16}
    (haddr : 0x10000 ≤ addr.toNat + board.prgUnit) :
    board.prgOffset? size addr =
      some (Banks.offset size board.prgUnit (Banks.last size board.prgUnit) addr) := by
  have hstart : ¬addr < Image.romStart := not_lt_of_top _ haddr (by
    rcases board.prgUnit_cases with h | h | h <;> rw [h] <;> decide)
  unfold prgOffset?
  rw [if_neg hstart]
  -- past the last bound below it, the topmost window is the default of every board
  cases board with
  | fixed b | wide b | ffe b => cases h
  | discrete b =>
    obtain ⟨model, mirroring, regs⟩ := b
    cases model with
    | uxrom =>
      have hC : ¬addr < 0xC000 := not_lt_of_top 0x4000 haddr (by decide)
      simp only [Discrete.prgBank, hC, if_false]
      rfl
    | cnrom => cases h
  | mmc1 b =>
    have hmode : b.control.toNat / 4 % 4 = 3 := eq_of_beq h
    have hC : ¬addr < 0xC000 := not_lt_of_top 0x4000 haddr (by decide)
    simp only [Mmc1.prgBankAt, hmode, hC, if_false]
    rfl
  | mmc3 b =>
    have hA : ¬addr < 0xA000 := not_lt_of_top 0x2000 haddr (by decide)
    have hC : ¬addr < 0xC000 := not_lt_of_top 0x2000 haddr (by decide)
    have hE : ¬addr < 0xE000 := not_lt_of_top 0x2000 haddr (by decide)
    simp only [Mmc3.prgBankAt, hA, hC, hE, if_false]
    rfl
  | mmc2 b =>
    obtain ⟨model, regs⟩ := b
    cases model with
    | mmc2 =>
      have hA : ¬addr < 0xA000 := not_lt_of_top 0x2000 haddr (by decide)
      have hC : ¬addr < 0xC000 := not_lt_of_top 0x2000 haddr (by decide)
      have hE : ¬addr < 0xE000 := not_lt_of_top 0x2000 haddr (by decide)
      simp only [Mmc2.prgBankAt, hA, hC, hE, if_false]
      rfl
    | mmc4 =>
      have hC : ¬addr < 0xC000 := not_lt_of_top 0x4000 haddr (by decide)
      simp only [Mmc2.prgBankAt, hC, if_false]
      rfl

/-! ### The board of disk copiers -/

/-- The banks of the four windows at power-on: the first two and the last two of so many, when the
last one has the given number. -/
def Ffe.startBank (count last : Nat) (addr : UInt16) : Nat :=
  if addr < 0xA000 then 0
  else if addr < 0xC000 then 1 % count
  else if addr < 0xE000 then last - 1
  else last

theorem Ffe.startBank_lt {count last : Nat} (h : last < count) (addr : UInt16) :
    startBank count last addr < count := by
  have hpos : 0 < count := Nat.lt_of_le_of_lt (Nat.zero_le last) h
  unfold startBank
  split
  · exact hpos
  split
  · exact Nat.mod_lt 1 hpos
  split
  · exact Nat.lt_of_le_of_lt (Nat.sub_le last 1) h
  · exact h

/-- The topmost of the four windows. -/
theorem Ffe.startBank_top (count last : Nat) {addr : UInt16} (h : 0xE000 ≤ addr) :
    startBank count last addr = last := by
  have hlow {bound : UInt16} (hbound : bound ≤ 0xE000) : ¬addr < bound :=
    UInt16.not_lt.mpr (UInt16.le_trans hbound h)
  unfold startBank
  rw [if_neg (hlow (by decide)), if_neg (hlow (by decide)), if_neg (hlow (by decide))]

/-- The register before the last stops at zero where the number does. -/
theorem Ffe.toNat_beforeLast (last : UInt8) :
    (if last = 0 then 0 else last - 1).toNat = last.toNat - 1 := by
  by_cases hzero : last = 0
  · rw [if_pos hzero, hzero]
    rfl
  · have hpos : last.toNat ≠ 0 := fun h => hzero (UInt8.toNat_inj.mp h)
    have hone : (1 : UInt8) ≤ last := UInt8.le_iff_toNat_le.mpr (Nat.one_le_iff_ne_zero.mpr hpos)
    rw [if_neg hzero, UInt8.toNat_sub_of_le _ _ hone]
    rfl

/-- The registers hold eight bits of the number of the last bank. -/
theorem Ffe.prgBankAt_powerOn (i : Image) {addr : UInt16} (h : Image.romStart ≤ addr) :
    (powerOn i).prgBankAt addr =
      startBank (Banks.count i.prg.size prgUnit) (Banks.last i.prg.size prgUnit % 256) addr := by
  have hwindow : 0x8000 ≤ addr.toNat := UInt16.le_iff_toNat_le.mp h
  have htop := addr.toNat_lt
  have hslot {n : Nat} (hlo : 0x8000 + n * 0x2000 ≤ addr.toNat)
      (hhi : addr.toNat < 0x8000 + (n + 1) * 0x2000) : addr.toNat / 0x2000 % 4 = n := by omega
  unfold prgBankAt startBank
  by_cases hA : addr < 0xA000
  · simp only [hslot (n := 0) hwindow (UInt16.lt_iff_toNat_lt.mp hA), hA, if_true]
    rfl
  have hA' : 0xA000 ≤ addr.toNat := UInt16.le_iff_toNat_le.mp (UInt16.not_lt.mp hA)
  by_cases hC : addr < 0xC000
  · simp only [hslot (n := 1) hA' (UInt16.lt_iff_toNat_lt.mp hC), hA, hC, if_true, if_false]
    exact Nat.mod_eq_of_lt (Nat.lt_of_le_of_lt (Nat.mod_le 1 _) (by decide))
  have hC' : 0xC000 ≤ addr.toNat := UInt16.le_iff_toNat_le.mp (UInt16.not_lt.mp hC)
  by_cases hE : addr < 0xE000
  · simp only [hslot (n := 2) hC' (UInt16.lt_iff_toNat_lt.mp hE), hA, hC, hE, if_true, if_false]
    exact toNat_beforeLast _
  · have hE' : 0xE000 ≤ addr.toNat := UInt16.le_iff_toNat_le.mp (UInt16.not_lt.mp hE)
    simp only [hslot (n := 3) hE' htop, hA, hC, hE, if_false]
    rfl

end Board

/-! ## Cartridges -/

/-- Program ROM of whole granules, with pattern ROM of whole granules or none, makes an image. -/
theorem Image.exists_cartridge (mapper : UInt16) (prg chr : Array UInt8) (hprg : 0 < prg.size)
    (hprgUnit : prgUnit ∣ prg.size) (hchrUnit : chrUnit ∣ chr.size) :
    ∃ i, cartridge mapper prg chr = .ok i ∧ i.mapper = mapper ∧ i.prg = prg ∧
      (0 < chr.size → i.chr = chr) := by
  have hempty : prg.isEmpty = false := by
    rw [Array.isEmpty_eq_false_iff]
    rintro rfl
    exact Nat.lt_irrefl 0 hprg
  have hprgWhole : ¬prg.size % prgUnit ≠ 0 := fun h => h (Nat.mod_eq_zero_of_dvd hprgUnit)
  have hchrWhole : ¬chr.size % chrUnit ≠ 0 := fun h => h (Nat.mod_eq_zero_of_dvd hchrUnit)
  unfold cartridge
  rw [hempty, if_neg Bool.false_ne_true, if_neg hprgWhole, if_neg hchrWhole]
  refine ⟨_, rfl, rfl, rfl, fun hchr => if_neg fun hnone => ?_⟩
  rw [Array.isEmpty_iff_size_eq_zero] at hnone
  exact Nat.ne_of_gt hchr hnone

namespace Cartridge

/-- The topmost window shows the end of the program ROM, so that is where the processor finds its
reset vector. -/
structure ShowsEnd (i : Image) (c : Cartridge) : Prop where
  offset : ∀ addr : UInt16, 0x10000 ≤ addr.toNat + c.board.prgUnit →
    c.prgOffset? addr = some (i.prg.size + addr.toNat - 0x10000)
  resetVector : i.prg[i.prg.size - 4]? = some (c.read resetVector) ∧
    i.prg[i.prg.size - 3]? = some (c.read (resetVector + 1))

/-- What an address reads is the byte of the ROM that it shows. -/
theorem read_of_prgOffset? {c : Cartridge} {addr : UInt16} {offset : Nat}
    (h : c.prgOffset? addr = some offset) : c.prg.bytes[offset]? = some (c.read addr) := by
  rw [read_eq_get h]
  exact Arena.getElem?_bytes (prgOffset?_lt h)

/-- The reset vector is found with the rest of the topmost window. -/
theorem showsEnd_of_offset {i : Image} {c : Cartridge} (hprg : c.prg.bytes = i.prg)
    (hsize : 4 ≤ i.prg.size) (h : ∀ addr : UInt16, 0x10000 ≤ addr.toNat + c.board.prgUnit →
      c.prgOffset? addr = some (i.prg.size + addr.toNat - 0x10000)) : ShowsEnd i c := by
  have hunit := c.board.le_prgUnit
  have hread (addr : UInt16) {k : Nat} (hk : k ≤ 4) (haddr : addr.toNat + k = 0x10000) :
      i.prg[i.prg.size - k]? = some (c.read addr) := by
    have hoffset : i.prg.size + addr.toNat - 0x10000 = i.prg.size - k := by omega
    have hread := read_of_prgOffset? (h addr (by omega))
    rwa [hoffset, hprg] at hread
  exact ⟨h, hread _ (by decide) rfl, hread _ (by decide) rfl⟩

/-- A board whose topmost window shows the last bank shows the end of the ROM there. -/
theorem showsEnd_of_topIsLast {i : Image} {c : Cartridge} (hprg : c.prg.bytes = i.prg)
    (hsize : c.board.prgUnit ∣ i.prg.size) (h : c.board.topIsLast = true) : ShowsEnd i c := by
  have hbytes : c.prg.size = i.prg.size := congrArg Array.size hprg
  have hpos : 0 < i.prg.size := hbytes ▸ c.prg.size_pos
  have hleast : 0x2000 ≤ i.prg.size :=
    Nat.le_trans c.board.le_prgUnit (Nat.le_of_dvd hpos hsize)
  refine showsEnd_of_offset hprg (Nat.le_trans (by decide) hleast) fun addr haddr => ?_
  rw [prgOffset?, Board.prgOffset?_top h _ haddr, hbytes,
    Banks.offset_last hsize hpos c.board.prgUnit_dvd haddr]

/-- A cartridge has the program ROM of its image. -/
theorem prg_ofImage {i : Image} {made : Cartridge} (h : ofImage i = .ok made) :
    made.prg.bytes = i.prg := by
  obtain ⟨_, rfl⟩ := ofImage_eq_ok_iff.mp h
  rfl

theorem Kin.install? {c d : Cartridge} (h : Kin c d) :
    c.board.install? d.board.registers = some d.board :=
  (h.registers _).trans d.board.install?_registers

/-- The windows of the board of disk copiers at power-on. -/
theorem prgOffset?_copier {i : Image} {c : Cartridge} (hboard : c.board = .ffe (.powerOn i))
    (hprg : c.prg.bytes = i.prg) (hsize : 0x2000 ∣ i.prg.size) {addr : UInt16}
    (h : Image.romStart ≤ addr) :
    let count := i.prg.size / 0x2000
    c.prgOffset? addr = some
      (Board.Ffe.startBank count ((count - 1) % 256) addr * 0x2000 + addr.toNat % 0x2000) := by
  intro count
  have hbytes : c.prg.size = i.prg.size := congrArg Array.size hprg
  have hpos : 0 < i.prg.size := hbytes ▸ c.prg.size_pos
  have hcount : Banks.count i.prg.size Board.Ffe.prgUnit = count := Banks.count_eq_div hsize hpos
  have hlast : (count - 1) % 256 < count := by
    have hmany : 0 < count := hcount ▸ Banks.count_pos _ _
    have := Nat.mod_le (count - 1) 256
    omega
  have hoffset : c.prgOffset? addr = some (Banks.offset i.prg.size Board.Ffe.prgUnit
      ((Board.Ffe.powerOn i).prgBankAt addr) addr) := by
    unfold prgOffset? Board.prgOffset?
    rw [if_neg (UInt16.not_lt.mpr h), hboard, hbytes]
  have hwhole : Board.Ffe.prgUnit ∣ i.prg.size := hsize
  rw [hoffset, Board.Ffe.prgBankAt_powerOn i h, Banks.offset_eq hwhole
    hpos, Banks.last, hcount, Nat.mod_eq_of_lt (Board.Ffe.startBank_lt hlast addr)]
  rfl

/-- Their last one shows the end of the ROM if eight bits are enough for its number. -/
theorem showsEnd_copier_iff {i : Image} {c : Cartridge} (hboard : c.board = .ffe (.powerOn i))
    (hprg : c.prg.bytes = i.prg) (hsize : 0x2000 ∣ i.prg.size) :
    ShowsEnd i c ↔ i.prg.size / 0x2000 ≤ 256 := by
  have hpos : 0 < i.prg.size := by
    rw [← hprg]
    exact c.prg.size_pos
  have hunit : c.board.prgUnit = 0x2000 := by rw [hboard]; rfl
  have htop (addr : UInt16) (haddr : 0x10000 ≤ addr.toNat + 0x2000) :
      c.prgOffset? addr = some
        ((i.prg.size / 0x2000 - 1) % 256 * 0x2000 + (addr.toNat + 0x2000 - 0x10000)) := by
    have hE : 0xE000 ≤ addr := UInt16.le_iff_toNat_le.mpr (by
      change 0xE000 ≤ addr.toNat
      omega)
    rw [prgOffset?_copier hboard hprg hsize (UInt16.le_trans (by decide) hE),
      Board.Ffe.startBank_top _ _ hE, Banks.mod_eq_of_top (by decide) haddr]
  obtain ⟨count, hcount⟩ := hsize
  have hdiv : i.prg.size / 0x2000 = count := by
    rw [hcount, Nat.mul_div_cancel_left count (by decide)]
  rw [hdiv] at htop ⊢
  constructor
  · -- one address of the window tells the number of the bank, and with it the whole window
    intro h
    have haddr : 0x10000 ≤ (0xFFFC : UInt16).toNat + 0x2000 := by decide
    have hboth := (htop _ haddr).symm.trans (h.offset _ (hunit ▸ haddr))
    have hsame := Option.some.inj hboth
    omega
  · intro h
    refine showsEnd_of_offset hprg (by omega) fun addr haddr => ?_
    rw [hunit] at haddr
    rw [htop addr haddr]
    refine congrArg some ?_
    omega

/-- Where a cartridge made from an image shows the end of its program ROM. -/
structure EndOfRom (i : Image) (made : Cartridge) : Prop where
  /-- At power-on, in the topmost window. -/
  powerOn : i.mapper ∈ [1, 2, 4, 9, 10] → ShowsEnd i made
  /-- Whatever is written, and whatever saved state is put in, on the boards that are wired so. -/
  wired : i.mapper ∈ [2, 4, 9, 10] → ∀ ops : List Operation, ShowsEnd i (made.run ops).2
  /-- The four windows of the board of disk copiers at power-on. -/
  copier : i.mapper = 17 → ∀ addr, Image.romStart ≤ addr →
    let count := i.prg.size / 0x2000
    made.prgOffset? addr = some
      (Board.Ffe.startBank count ((count - 1) % 256) addr * 0x2000 + addr.toNat % 0x2000)
  /-- They end with the last bank if its number fits the register. -/
  copierEnd : i.mapper = 17 → (ShowsEnd i made ↔ i.prg.size / 0x2000 ≤ 256)

/-- These boards start with the last bank in the topmost window. -/
theorem topIsLast_powerOn {i : Image} (h : i.mapper ∈ [1, 2, 4, 9, 10]) :
    (Board.powerOn i).topIsLast = true := by
  simp only [List.mem_cons, List.not_mem_nil, or_false] at h
  rcases h with h | h | h | h | h <;> rw [Board.powerOn, h] <;> rfl

/-- These are wired so. -/
theorem fixesTop_powerOn {i : Image} (h : i.mapper ∈ [2, 4, 9, 10]) :
    (Board.powerOn i).fixesTop = true := by
  simp only [List.mem_cons, List.not_mem_nil, or_false] at h
  rcases h with h | h | h | h <;> rw [Board.powerOn, h] <;> rfl

/-- **The end of program ROM.**  A cartridge can be made from an image with any program ROM.  If
that has whole banks, of whatever number, then the topmost window shows its end from power-on; on
the boards that are wired so it does for good.  The board of disk copiers shows the first two and
the last two banks, as far as eight bits can name them. -/
theorem shows_end_of_rom (i : Image) (hprg : 0 < i.prg.size) :
    ∃ made, ofImage i = .ok made ∧ (made.board.prgUnit ∣ i.prg.size → EndOfRom i made) := by
  obtain ⟨made, hmade⟩ : ∃ made, ofImage i = .ok made := ⟨_, dif_pos hprg⟩
  have hboard := board_ofImage hmade
  have hbytes := prg_ofImage hmade
  refine ⟨made, hmade, fun hsize => ?_⟩
  have hcopier (h : i.mapper = 17) : made.board = .ffe (.powerOn i) := by
    rw [hboard, Board.powerOn, h]
    rfl
  constructor
  case powerOn =>
    intro h
    exact showsEnd_of_topIsLast hbytes hsize (hboard ▸ topIsLast_powerOn h)
  case wired =>
    intro h ops
    have hkin := kin_run ops made
    have hfixed := (Board.install?_fixesTop hkin.install?).trans (hboard ▸ fixesTop_powerOn h)
    have hunit := Board.install?_prgUnit hkin.install?
    exact showsEnd_of_topIsLast (hkin.prg ▸ hbytes) (hunit ▸ hsize)
      (Board.topIsLast_of_fixesTop hfixed)
  case copier =>
    intro h addr haddr
    have hunit : made.board.prgUnit = 0x2000 := by rw [hcopier h]; rfl
    exact prgOffset?_copier (hcopier h) hbytes (hunit ▸ hsize) haddr
  case copierEnd =>
    intro h
    have hunit : made.board.prgUnit = 0x2000 := by rw [hcopier h]; rfl
    exact showsEnd_copier_iff (hcopier h) hbytes (hunit ▸ hsize)

/-- Program ROM of some banks of 8 KiB. -/
def bankedRom (banks : Nat) : Array UInt8 := Array.replicate (banks * 0x2000) 0xEA

theorem exists_banked (mapper : UInt16) (banks : Nat) (h : 0 < banks) :
    ∃ i, Image.cartridge mapper (bankedRom banks) #[] = .ok i ∧ i.mapper = mapper ∧
      i.prg.size = banks * 0x2000 := by
  have hsize : (bankedRom banks).size = banks * 0x2000 := Array.size_replicate
  obtain ⟨i, haccepted, hmapper, hprg, -⟩ :=
    Image.exists_cartridge mapper (bankedRom banks) #[]
      (by rw [hsize]; omega) (by rw [hsize]; exact Nat.dvd_mul_left ..) (by decide)
  exact ⟨i, haccepted, hmapper, by rw [hprg, hsize]⟩

/-- Three banks behind MMC3, the last of which is still there after registers were written and put
in, and 256 banks behind the board of disk copiers. -/
theorem shows_end_of_rom_counted :
    (∃ i made, Image.cartridge 4 (bankedRom 3) #[] = .ok i ∧ ofImage i = .ok made ∧
      0 < i.prg.size ∧
      (made.run [.act (.write 0x8000 0x46), .act (.write 0x8001 1),
        .act (.restore made.save)]).2.prgOffset? 0xFFFC = some 0x5FFC) ∧
    ∃ i made, Image.cartridge 17 (bankedRom 256) #[] = .ok i ∧ ofImage i = .ok made ∧
      0 < i.prg.size ∧ made.prgOffset? 0xFFFC = some 0x1FFFFC := by
  have htop (c : Cartridge) : 0x10000 ≤ (0xFFFC : UInt16).toNat + c.board.prgUnit :=
    Nat.le_trans (by decide) (Nat.add_le_add_left c.board.le_prgUnit _)
  constructor
  · obtain ⟨i, haccepted, hmapper, hsize⟩ := exists_banked 4 3 (by decide)
    have hpos : 0 < i.prg.size := by rw [hsize]; decide
    obtain ⟨made, hmade, hend⟩ := shows_end_of_rom i hpos
    have hunit : made.board.prgUnit = 0x2000 := by
      rw [board_ofImage hmade, Board.powerOn, hmapper]
      rfl
    have hwired := (hend (by rw [hunit, hsize]; decide)).wired (by rw [hmapper]; decide)
      [.act (.write 0x8000 0x46), .act (.write 0x8001 1), .act (.restore made.save)]
    refine ⟨i, made, haccepted, hmade, hpos, ?_⟩
    rw [hwired.offset 0xFFFC (htop _), hsize]
    rfl
  · obtain ⟨i, haccepted, hmapper, hsize⟩ := exists_banked 17 256 (by decide)
    have hpos : 0 < i.prg.size := by rw [hsize]; decide
    obtain ⟨made, hmade, hend⟩ := shows_end_of_rom i hpos
    have hunit : made.board.prgUnit = 0x2000 := by
      rw [board_ofImage hmade, Board.powerOn, hmapper]
      rfl
    have hcount : 256 * 0x2000 / 0x2000 ≤ 256 := by decide
    have hends := ((hend (by rw [hunit, hsize]; decide)).copierEnd hmapper).mpr (hsize ▸ hcount)
    refine ⟨i, made, haccepted, hmade, hpos, ?_⟩
    rw [hends.offset 0xFFFC (htop _), hsize]
    rfl

/-- The number of the last of 257 banks does not fit a register of eight bits: at power-on the board
of disk copiers shows the first bank where the last one should be. -/
theorem shows_start_of_rom :
    ∃ i made, Image.cartridge 17 (bankedRom 257) #[] = .ok i ∧ ofImage i = .ok made ∧
      made.board.prgUnit ∣ i.prg.size ∧
      0x10000 ≤ (0xFFFC : UInt16).toNat + made.board.prgUnit ∧
      i.prg.size + (0xFFFC : UInt16).toNat - 0x10000 = 0x201FFC ∧
      made.prgOffset? 0xFFFC = some 0x1FFC := by
  obtain ⟨i, haccepted, hmapper, hsize⟩ := exists_banked 17 257 (by decide)
  obtain ⟨made, hmade⟩ : ∃ made, ofImage i = .ok made := ⟨_, dif_pos (by rw [hsize]; decide)⟩
  have hboard : made.board = .ffe (.powerOn i) := by
    rw [board_ofImage hmade, Board.powerOn, hmapper]
    rfl
  have hunit : made.board.prgUnit = 0x2000 := by rw [hboard]; rfl
  have hwhole : 0x2000 ∣ i.prg.size := by rw [hsize]; decide
  refine ⟨i, made, haccepted, hmade, hunit ▸ hwhole, by rw [hunit]; decide, by rw [hsize]; rfl, ?_⟩
  rw [prgOffset?_copier hboard (prg_ofImage hmade) hwhole (by decide), hsize]
  rfl

end Cartridge

end Famicom
