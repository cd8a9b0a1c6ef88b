import Famicom.Proofs.Cartridge.ScanlineCounter
import Famicom.Proofs.Cartridge.Translation
import Mathlib.Tactic.IntervalCases
import Mathlib.Tactic.SplitIfs

/-!
# The windows of MMC3 that trade places

Two bits of the bank select register of MMC3 choose its layout.  One makes the halves of pattern
memory trade places, the other a switchable and a fixed window of program ROM.  Flipping such a bit
shows at an address what was shown before at the address with one bit flipped, whatever is in the
other registers.

The registers for 2 KiB of pattern memory hold even numbers of 1 KiB banks, and those for program
ROM have six bits; every write keeps to that.

* `slotOf_xor`, `windowOf_xor` — what flipping a bit of an address does to its place.
* `Registers.Fit.operated` — one operation keeps the bank registers fitting.
* `windows_exchanged` — an MMC3 cartridge from power-on, however it is played.
-/

namespace Famicom

/-! ## Addresses -/

/-- Flipping a high bit of an address flips a bit of the number of its window. -/
theorem toNat_xor_div (addr : UInt16) {bit : UInt16} {k n : Nat}
    (hbit : bit.toNat = 2 ^ n * 2 ^ k) :
    (addr ^^^ bit).toNat / 2 ^ n = addr.toNat / 2 ^ n ^^^ 2 ^ k := by
  rw [UInt16.toNat_xor, Nat.xor_div_two_pow, hbit, Nat.mul_div_cancel_left _ (Nat.two_pow_pos n)]

/-- It leaves the place in the window alone. -/
theorem toNat_xor_mod (addr : UInt16) {bit : UInt16} {k n : Nat}
    (hbit : bit.toNat = 2 ^ n * 2 ^ k) :
    (addr ^^^ bit).toNat % 2 ^ n = addr.toNat % 2 ^ n := by
  rw [UInt16.toNat_xor, Nat.xor_mod_two_pow, hbit, Nat.mul_mod_right, Nat.xor_zero]

namespace Board.Mmc3

/-- The 1 KiB of pattern addresses that an address lies in. -/
def slotOf (addr : UInt16) : Nat := addr.toNat % 0x2000 / 0x400

theorem slotOf_lt (addr : UInt16) : slotOf addr < 8 :=
  Nat.div_lt_of_lt_mul (Nat.mod_lt _ (by decide))

/-- Bit 12 of a pattern address tells the half. -/
theorem slotOf_xor (addr : UInt16) : slotOf (addr ^^^ 0x1000) = (slotOf addr + 4) % 8 := by
  have hslot (addr : UInt16) : slotOf addr = addr.toNat / 2 ^ 10 % 2 ^ 3 :=
    Nat.mod_mul_right_div_self addr.toNat 0x400 8
  have hflip : ∀ s < 8, s ^^^ 4 = (s + 4) % 8 := by decide
  rw [hslot, toNat_xor_div addr (k := 2) rfl, Nat.xor_mod_two_pow, ← hslot]
  exact hflip _ (slotOf_lt addr)

/-- The 8 KiB of processor addresses that an address lies in. -/
def windowOf (addr : UInt16) : Nat := addr.toNat / 0x2000

/-- Bounds at whole windows compare the numbers of the windows. -/
theorem lt_iff_windowOf {addr bound : UInt16} (n : Nat) (h : bound.toNat = n * 0x2000) :
    addr < bound ↔ windowOf addr < n := by
  rw [UInt16.lt_iff_toNat_lt, h, windowOf, Nat.div_lt_iff_lt_mul (by decide)]

theorem windowOf_lt (addr : UInt16) : windowOf addr < 8 := Nat.div_lt_of_lt_mul addr.toNat_lt

/-- The two windows of program ROM that trade places. -/
theorem windowOf_first_third {addr : UInt16} :
    0x8000 ≤ addr ∧ addr < 0xA000 ∨ 0xC000 ≤ addr ∧ addr < 0xE000 ↔
      windowOf addr = 4 ∨ windowOf addr = 6 := by
  have h8 : addr < 0x8000 ↔ windowOf addr < 4 := lt_iff_windowOf 4 rfl
  have hA : addr < 0xA000 ↔ windowOf addr < 5 := lt_iff_windowOf 5 rfl
  have hC : addr < 0xC000 ↔ windowOf addr < 6 := lt_iff_windowOf 6 rfl
  have hE : addr < 0xE000 ↔ windowOf addr < 7 := lt_iff_windowOf 7 rfl
  rw [← UInt16.not_lt, ← UInt16.not_lt, h8, hA, hC, hE]
  omega

/-- The two that do not. -/
theorem windowOf_second_last {addr : UInt16} :
    0xA000 ≤ addr ∧ addr < 0xC000 ∨ 0xE000 ≤ addr ↔ windowOf addr = 5 ∨ windowOf addr = 7 := by
  have hA : addr < 0xA000 ↔ windowOf addr < 5 := lt_iff_windowOf 5 rfl
  have hC : addr < 0xC000 ↔ windowOf addr < 6 := lt_iff_windowOf 6 rfl
  have hE : addr < 0xE000 ↔ windowOf addr < 7 := lt_iff_windowOf 7 rfl
  have hlt := windowOf_lt addr
  rw [← UInt16.not_lt, ← UInt16.not_lt, hA, hC, hE]
  omega

/-- Bit 14 tells the lowest window of program ROM and the one two above it apart. -/
theorem windowOf_xor (addr : UInt16) : windowOf (addr ^^^ 0x4000) = windowOf addr ^^^ 2 :=
  toNat_xor_div (k := 1) (n := 13) addr rfl

/-! ## Flipping a bit of the bank select register -/

/-- The board with another value in the bank select register. -/
def selecting (b : Mmc3) (value : UInt8) : Mmc3 :=
  { b with regs := { b.regs with bankSelect := value } }

/-- Each of the two bits can be flipped by itself. -/
theorem hasBits_flip : ∀ select : UInt8,
    hasBits (select ^^^ 0x80) 0x80 = !hasBits select 0x80 ∧
    hasBits (select ^^^ 0x40) 0x40 = !hasBits select 0x40 := by
  decide +kernel

/-- Both pattern halves trade places. -/
theorem chrSlot_flip (b : Mmc3) (addr : UInt16) :
    (b.selecting (b.regs.bankSelect ^^^ 0x80)).chrSlot addr = b.chrSlot (addr ^^^ 0x1000) := by
  have hslot (b : Mmc3) (addr : UInt16) : b.chrSlot addr =
      if hasBits b.regs.bankSelect 0x80 then (slotOf addr + 4) % 8 else slotOf addr := rfl
  have hselect : (b.selecting (b.regs.bankSelect ^^^ 0x80)).regs.bankSelect =
      b.regs.bankSelect ^^^ 0x80 := rfl
  have hlt := slotOf_lt addr
  rw [hslot, hslot, hselect, (hasBits_flip _).1, slotOf_xor]
  cases hasBits b.regs.bankSelect 0x80 with
  | true =>
    rw [Bool.not_true, if_neg Bool.false_ne_true, if_pos rfl]
    omega
  | false => rw [Bool.not_false, if_pos rfl, if_neg Bool.false_ne_true]

/-- So each shows the banks of the other. -/
theorem chrBankAt_flip (b : Mmc3) (addr : UInt16) :
    (b.selecting (b.regs.bankSelect ^^^ 0x80)).chrBankAt addr = b.chrBankAt (addr ^^^ 0x1000) := by
  unfold chrBankAt
  rw [chrSlot_flip]
  rfl

/-- The bank that each window of program ROM shows. -/
theorem prgBankAt_eq (b : Mmc3) (size : Nat) (addr : UInt16) :
    b.prgBankAt size addr =
      let swapped := hasBits b.regs.bankSelect 0x40
      let secondLast := Banks.count size prgUnit - 2
      if windowOf addr < 5 then (if swapped then secondLast else (b.regs.banks.get 6).toNat)
      else if windowOf addr < 6 then (b.regs.banks.get 7).toNat
      else if windowOf addr < 7 then (if swapped then (b.regs.banks.get 6).toNat else secondLast)
      else Banks.last size prgUnit := by
  have hA : addr < 0xA000 ↔ windowOf addr < 5 := lt_iff_windowOf 5 rfl
  have hC : addr < 0xC000 ↔ windowOf addr < 6 := lt_iff_windowOf 6 rfl
  have hE : addr < 0xE000 ↔ windowOf addr < 7 := lt_iff_windowOf 7 rfl
  unfold prgBankAt
  simp only [hA, hC, hE]
  rfl

/-- The first and the third window trade places. -/
theorem prgBankAt_flip (b : Mmc3) (size : Nat) {addr : UInt16}
    (h : windowOf addr = 4 ∨ windowOf addr = 6) :
    (b.selecting (b.regs.bankSelect ^^^ 0x40)).prgBankAt size addr =
      b.prgBankAt size (addr ^^^ 0x4000) := by
  have hselect : (b.selecting (b.regs.bankSelect ^^^ 0x40)).regs.bankSelect =
      b.regs.bankSelect ^^^ 0x40 := rfl
  have hbanks : (b.selecting (b.regs.bankSelect ^^^ 0x40)).regs.banks = b.regs.banks := rfl
  simp only [prgBankAt_eq, windowOf_xor, hselect, hbanks, (hasBits_flip _).2]
  rcases h with h | h <;> cases hasBits b.regs.bankSelect 0x40 <;> simp [h]

/-- The second window and the last stay. -/
theorem prgBankAt_keep (b : Mmc3) (size : Nat) {addr : UInt16}
    (h : windowOf addr = 5 ∨ windowOf addr = 7) (value : UInt8) :
    (b.selecting value).prgBankAt size addr = b.prgBankAt size addr := by
  have hbanks : (b.selecting value).regs.banks = b.regs.banks := rfl
  simp only [prgBankAt_eq, hbanks]
  rcases h with h | h <;> simp [h]

/-! ## Bank registers -/

/-- A value that a bank register can hold: the registers for 2 KiB of pattern memory hold even ones,
and those for program ROM have six bits. -/
def Fits (register : Nat) (value : UInt8) : Prop :=
  (register < 2 → value.toNat % 2 = 0) ∧ (6 ≤ register → value.toNat < 64)

instance (register : Nat) (value : UInt8) : Decidable (Fits register value) :=
  inferInstanceAs (Decidable (_ ∧ _))

/-- What is kept of a value fits its register. -/
theorem fits_keptBank (register : Nat) (value : UInt8) :
    Fits register (Registers.keptBank register value) := by
  have heven : ∀ v : UInt8, (v &&& 0xFE).toNat % 2 = 0 := by decide +kernel
  have hshort : ∀ v : UInt8, (v &&& 0x3F).toNat < 64 := by decide +kernel
  unfold Registers.keptBank
  constructor
  · intro h
    rw [if_pos h]
    exact heven value
  · intro h
    rw [if_neg (by omega), if_neg (by omega)]
    exact hshort value

namespace Registers

/-- All bank registers hold values that fit them. -/
def Fit (r : Registers) : Prop := ∀ n (h : n < 8), Fits n r.banks[n]

/-- The registers fit from power-on. -/
theorem fit_powerOn (i : Image) : (powerOn i).regs.Fit := by
  have hpower : ∀ n : Fin 8, Fits n (#v[0, 2, 4, 5, 6, 7, 0, 1] : Vector UInt8 8)[n] := by decide
  exact fun n h => hpower ⟨n, h⟩

variable {r : Registers}

/-- A write puts a fitting value into one bank register at most. -/
theorem Fit.write (h : r.Fit) (addr : UInt16) (value : UInt8) : (r.write addr value).Fit := by
  unfold Registers.write
  dsimp only
  split
  · split
    · exact h
    · intro n hn
      -- the one register that is written keeps what fits; the others are as they were
      have htarget : r.bankSelect.toNat % 8 < 8 := Nat.mod_lt _ (by decide)
      show Fits n (r.banks.set _ (keptBank (r.bankSelect.toNat % 8) value) htarget)[n]
      rw [Vector.getElem_set]
      split
      · next hsame => exact hsame ▸ fits_keptBank _ value
      · exact h n hn
  · split_ifs <;> exact h

theorem Fit.observe (h : r.Fit) (addr : UInt16) : (r.observe addr).Fit := by
  unfold Registers.observe
  dsimp only
  split_ifs <;> exact h

/-- **One operation.** -/
theorem Fit.operated (h : r.Fit) (op : Cartridge.Operation) : (r.operated op).Fit := by
  cases op with
  | act a =>
    cases a with
    | write addr value =>
      show (if addr < Image.romStart then r else r.write addr value).Fit
      split
      · exact h
      · exact h.write addr value
    | observe addr => exact h.observe addr
    | _ => exact h
  | _ => exact h

/-- A whole run of operations, by induction over it. -/
theorem Fit.run {b : Mmc3} (h : b.regs.Fit) (ops : List Cartridge.Operation) :
    ∃ b', ops.foldl Board.operated (.mmc3 b) = .mmc3 b' ∧ b'.regs.Fit := by
  induction ops generalizing b with
  | nil => exact ⟨b, rfl, h⟩
  | cons op rest ih =>
    rw [List.foldl_cons, b.operated_eq]
    exact ih (h.operated op)

end Registers

/-- Each window of 2 KiB shows a bank and the one after it. -/
theorem chrBankAt_wide (b : Mmc3) {n : Nat} (hn : n < 2) {addr : UInt16}
    (h : slotOf addr / 2 = n + if hasBits b.regs.bankSelect 0x80 then 2 else 0) :
    b.chrBankAt addr = b.regs.banks[n].toNat + slotOf addr % 2 := by
  have hslot : b.chrSlot addr = 2 * n + slotOf addr % 2 := by
    show (if hasBits b.regs.bankSelect 0x80 then (slotOf addr + 4) % 8 else slotOf addr) = _
    have hlt := slotOf_lt addr
    split at h
    · next hinverted =>
      rw [if_pos hinverted]
      omega
    · next hplain =>
      rw [if_neg hplain]
      omega
  have hparity := Nat.mod_two_eq_zero_or_one (slotOf addr)
  unfold chrBankAt
  rw [hslot]
  -- two registers with two banks each
  interval_cases n <;> rcases hparity with hp | hp <;> rw [hp] <;> rfl

end Board.Mmc3

/-! ## Cartridges -/

namespace Cartridge

open Board.Mmc3

/-- The addresses of the bank select register. -/
def IsBankSelect (port : UInt16) : Prop := 0x8000 ≤ port ∧ port < 0xA000 ∧ port &&& 1 = 0

/-- Only the bank select register takes the value. -/
theorem write_bankSelect {c : Cartridge} {b : Board.Mmc3} (h : c.board = .mmc3 b) {port : UInt16}
    (hport : IsBankSelect port) (value : UInt8) :
    c.write port value = { c with board := .mmc3 (b.selecting value) } := by
  obtain ⟨hfrom, hto, heven⟩ := hport
  have hwindow : Image.romStart ≤ port := hfrom
  have hregister : b.regs.write port value = { b.regs with bankSelect := value } := by
    unfold Registers.write
    rw [if_pos hto, heven]
    rfl
  rw [c.write_board (isWorkRam_eq_false hwindow), h, Board.operated_window _ hwindow,
    Board.write_eq (by simp), if_neg (UInt16.not_lt.mpr hwindow), Board.writeWindow, hregister]
  rfl

section

variable {c : Cartridge} {b : Board.Mmc3}

/-- The picture unit reads the byte of the bank that the board reports. -/
theorem chrRead_eq (h : c.board = .mmc3 b) (addr : UInt16) :
    c.chrRead addr = c.chr.get
      (Banks.offset c.chr.size Board.Mmc3.chrUnit (c.chrBank addr) addr) := by
  unfold chrRead chrOffset chrBank
  rw [h]
  rfl

/-- Flipping bit 7 shows each byte of pattern memory in the other half. -/
theorem pattern_flip (h : c.board = .mmc3 b) {port : UInt16} (hport : IsBankSelect port)
    (addr : UInt16) :
    let flipped := c.write port (b.regs.bankSelect ^^^ 0x80)
    flipped.chrBank addr = c.chrBank (addr ^^^ 0x1000) ∧
      flipped.chrRead addr = c.chrRead (addr ^^^ 0x1000) := by
  intro flipped
  have hflipped : flipped = { c with board := .mmc3 (b.selecting (b.regs.bankSelect ^^^ 0x80)) } :=
    write_bankSelect h hport _
  have hbank : flipped.chrBank addr = c.chrBank (addr ^^^ 0x1000) := by
    rw [hflipped]
    unfold chrBank
    rw [h]
    exact congrArg (· % Banks.count c.chr.size Board.Mmc3.chrUnit) (b.chrBankAt_flip addr)
  have hinside : (addr ^^^ 0x1000).toNat % 0x400 = addr.toNat % 0x400 :=
    toNat_xor_mod (k := 2) (n := 10) addr rfl
  refine ⟨hbank, ?_⟩
  have hboard : flipped.board = .mmc3 (b.selecting (b.regs.bankSelect ^^^ 0x80)) := by rw [hflipped]
  have hchr : flipped.chr = c.chr := by rw [hflipped]
  rw [chrRead_eq hboard, chrRead_eq h, hbank, hchr, Banks.offset, Banks.offset,
    show Board.Mmc3.chrUnit = 0x400 from rfl, hinside]

/-- What a window of program ROM shows follows from the bank in it and the place in the window. -/
theorem prgOffset?_eq (h : c.board = .mmc3 b) {addr : UInt16} (haddr : Image.romStart ≤ addr) :
    c.prgOffset? addr = some (Banks.offset c.prg.size Board.Mmc3.prgUnit
      (b.prgBankAt c.prg.size addr) addr) := by
  rw [prgOffset?, h]
  exact if_neg (UInt16.not_lt.mpr haddr)

/-- Flipping bit 6 shows each byte of two windows of program ROM in the other. -/
theorem program_flip (h : c.board = .mmc3 b) {port : UInt16} (hport : IsBankSelect port)
    {addr : UInt16} (haddr : windowOf addr = 4 ∨ windowOf addr = 6) :
    (c.write port (b.regs.bankSelect ^^^ 0x40)).prgOffset? addr =
      c.prgOffset? (addr ^^^ 0x4000) := by
  have hstart {addr : UInt16} (hwindow : 4 ≤ windowOf addr) : Image.romStart ≤ addr :=
    UInt16.not_lt.mp fun hlow => Nat.not_lt.mpr hwindow ((lt_iff_windowOf 4 rfl).mp hlow)
  have hother : 4 ≤ windowOf (addr ^^^ 0x4000) := by
    rw [windowOf_xor]
    rcases haddr with hw | hw <;> rw [hw] <;> decide
  have hinside : (addr ^^^ 0x4000).toNat % 0x2000 = addr.toNat % 0x2000 :=
    toNat_xor_mod (k := 1) (n := 13) addr rfl
  rw [write_bankSelect h hport, prgOffset?_eq rfl (hstart (by omega)),
    prgOffset?_eq h (hstart hother), b.prgBankAt_flip _ haddr, Banks.offset, Banks.offset,
    show Board.Mmc3.prgUnit = 0x2000 from rfl, hinside]

/-- The other two windows stay, whatever is put into the bank select register. -/
theorem program_keep (h : c.board = .mmc3 b) {port : UInt16} (hport : IsBankSelect port)
    {addr : UInt16} (haddr : windowOf addr = 5 ∨ windowOf addr = 7) (value : UInt8) :
    (c.write port value).prgOffset? addr = c.prgOffset? addr := by
  have hstart : Image.romStart ≤ addr :=
    UInt16.not_lt.mp fun hlow => by
      have hwindow := (lt_iff_windowOf 4 rfl).mp hlow
      omega
  rw [write_bankSelect h hport, prgOffset?_eq rfl hstart, prgOffset?_eq h hstart,
    b.prgBankAt_keep _ haddr]

end

/-- **Layouts of MMC3.**  However an MMC3 cartridge has been played from power-on, short of putting
a saved state in: flipping bit 7 of the bank select register makes the pattern halves trade places;
flipping bit 6 makes the first and the third window of program ROM trade places and leaves the
others.  Each window of 2 KiB shows an even bank and the one after it, as far as there are any, and
the registers for program ROM have six bits. -/
theorem windows_exchanged {i : Image} (hmapper : i.mapper = 4) {made : Cartridge}
    (hmade : ofImage i = .ok made) {ops : List Operation}
    (hops : ∀ op ∈ ops, op.restores = false) :
    let c := (made.run ops).2
    ∃ b : Board.Mmc3, c.board = .mmc3 b ∧
      (∀ port, IsBankSelect port →
        let flipped := c.write port (b.regs.bankSelect ^^^ 0x80)
        let swapped := c.write port (b.regs.bankSelect ^^^ 0x40)
        (∀ addr, flipped.chrBank addr = c.chrBank (addr ^^^ 0x1000) ∧
          flipped.chrRead addr = c.chrRead (addr ^^^ 0x1000)) ∧
        (∀ addr, 0x8000 ≤ addr ∧ addr < 0xA000 ∨ 0xC000 ≤ addr ∧ addr < 0xE000 →
          swapped.prgOffset? addr = c.prgOffset? (addr ^^^ 0x4000)) ∧
        (∀ addr, 0xA000 ≤ addr ∧ addr < 0xC000 ∨ 0xE000 ≤ addr →
          swapped.prgOffset? addr = c.prgOffset? addr)) ∧
      (∀ n (h : n < 2), b.regs.banks[n].toNat % 2 = 0 ∧ b.regs.banks[n + 6].toNat < 64 ∧
        ∀ addr : UInt16,
          addr.toNat / 0x800 = n + (if hasBits b.regs.bankSelect 0x80 then 2 else 0) →
          c.chrBank addr =
            (b.regs.banks[n].toNat + addr.toNat / 0x400 % 2) % Banks.count c.chr.size 0x400) := by
  intro c
  have hpower : made.board = .mmc3 (.powerOn i) := by
    rw [board_ofImage hmade, Board.powerOn, hmapper]
    rfl
  obtain ⟨b, hfold, hfit⟩ := (Registers.fit_powerOn i).run ops
  have hboard : c.board = .mmc3 b := by
    rw [← hfold, ← hpower]
    exact board_run hops made
  refine ⟨b, hboard, fun port hport => ⟨fun addr => pattern_flip hboard hport addr, ?_, ?_⟩, ?_⟩
  · exact fun addr haddr => program_flip hboard hport (windowOf_first_third.mp haddr)
  · exact fun addr haddr => program_keep hboard hport (windowOf_second_last.mp haddr) _
  · intro n hn
    refine ⟨(hfit n (by omega)).1 hn, (hfit (n + 6) (by omega)).2 (by omega), ?_⟩
    intro addr haddr
    -- below the bound of the hypothesis, addresses and slots count alike
    have hlow : addr.toNat / 0x800 < 4 := by
      rw [haddr]
      split <;> omega
    have hslot : slotOf addr = addr.toNat / 0x400 := by
      unfold slotOf
      omega
    have hpair : slotOf addr / 2 = n + if hasBits b.regs.bankSelect 0x80 then 2 else 0 := by
      rw [hslot, ← haddr]
      omega
    have hwide := b.chrBankAt_wide hn hpair
    rw [chrBank, hboard, ← hslot, ← hwide]
    rfl

/-- The even bank of an odd number, and the one after it, in the upper half and after that in the
lower one. -/
theorem windows_exchanged_inverted :
    ∃ made, ofImage { copier with mapper := 4 } = .ok made ∧
      let c := (made.run (Operation.writes [(0x8000, 0x80), (0x8001, 5)])).2
      c.chrBank 0x1000 = 4 ∧ c.chrBank 0x1400 = 5 ∧
        (c.write 0x9FFE 0x00).chrBank 0x0400 = c.chrBank 0x1400 := by
  refine ⟨_, rfl, ?_⟩
  have hops : ∀ op ∈ Operation.writes [(0x8000, 0x80), (0x8001, 5)], op.restores = false := by
    decide
  obtain ⟨b, hboard, hflip, hbanks⟩ :=
    windows_exchanged (i := { copier with mapper := 4 }) rfl rfl hops
  obtain ⟨hselect, hfour⟩ : b.regs.bankSelect = 0x80 ∧ b.regs.banks[0] = 4 := by
    rw [← Board.mmc3.inj hboard]
    decide +kernel
  have hplain := ((hflip 0x9FFE ⟨by decide, by decide, by decide⟩).1 0x0400).1
  have hwide := (hbanks 0 (by decide)).2.2
  rw [hselect] at hplain hwide
  rw [hfour] at hwide
  refine ⟨(hwide 0x1000 (by decide)).trans ?_, (hwide 0x1400 (by decide)).trans ?_, hplain⟩ <;>
    decide +kernel

end Cartridge

end Famicom
