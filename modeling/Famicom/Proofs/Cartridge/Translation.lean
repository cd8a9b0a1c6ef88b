import Famicom.Proofs.Cartridge.Acts

/-!
# Address translation

A board translates addresses of the processor into offsets in program ROM and addresses of the
picture unit into offsets in pattern memory.  Images may have any length and registers may hold
anything: there may be less ROM than one bank, a part of a bank at its end, or more banks than a
register can name.

* `Board.prgOffset?_window` — in the ROM window all boards show a bank, but for the board without
  registers.
* `Board.offset_mod_prgUnit` — when the ROM has whole banks, translation moves whole banks.
* `Board.chrOffset_eq` — pattern memory is translated by the bank that the board reports.
* `Cartridge.translates_ofImage` — what a cartridge made from an image shows, whatever is done to
  it.
-/

namespace Famicom

/-! ## Memory -/

/-- Within the block an index does not wrap. -/
theorem Arena.bytes_set {a : Arena} {i : Nat} (h : i < a.size) (value : UInt8) :
    (a.set i value).bytes = a.bytes.set! i value := by
  have hbytes : i < a.bytes.size := h
  simp only [set, Nat.mod_eq_of_lt hbytes, Array.set!_eq_setIfInBounds,
    Array.setIfInBounds_def, dif_pos hbytes]

/-! ## Banks -/

/-- When the memory has whole banks, an offset lies as far into its bank as the address says. -/
theorem Banks.offset_mod {size unit : Nat} (h : unit ∣ size) (bank : Nat) (addr : UInt16) :
    offset size unit bank addr % unit = addr.toNat % unit := by
  rw [offset, Nat.mod_mod_of_dvd _ h, Nat.mul_add_mod_self_right, Nat.mod_mod]

/-- A bank number can be wrapped before it is used. -/
theorem Banks.offset_mod_count (size unit bank : Nat) (addr : UInt16) :
    offset size unit (bank % count size unit) addr = offset size unit bank addr := by
  rw [offset, Nat.mod_mod, offset]

namespace Board

/-! ## Program ROM -/

/-- The board is the one without registers and holds a sound program. -/
def holdsSound : Board → Bool
  | fixed b => b.isSound
  | _ => false

theorem prgOffset?_below (board : Board) (size : Nat) {addr : UInt16} (h : addr < Image.romStart) :
    board.prgOffset? size addr = none := if_pos h

/-- In the ROM window a board shows a bank, whichever its registers select; only the board without
registers may be wired in another way. -/
theorem prgOffset?_window (board : Board) (size : Nat) {addr : UInt16}
    (h : Image.romStart ≤ addr) :
    (∃ b, board = .fixed b ∧ board.prgOffset? size addr = b.prgOffset? size addr) ∨
      ∃ bank, board.prgOffset? size addr = some (Banks.offset size board.prgUnit bank addr) := by
  have hwindow : ¬addr < Image.romStart := UInt16.not_lt.mpr h
  unfold prgOffset?
  rw [if_neg hwindow]
  cases board with
  | fixed b => exact .inl ⟨b, rfl, rfl⟩
  | discrete b | mmc1 b | mmc3 b | mmc2 b | wide b | ffe b => exact .inr ⟨_, rfl⟩

/-- A cartridge on the board without registers shows all of a small ROM over and over, and banks of
a large one. -/
theorem Fixed.prgOffset?_cartridge {b : Fixed} (hb : b.isSound = false) (size : Nat)
    (addr : UInt16) :
    b.prgOffset? size addr = some ((addr.toNat - Image.romStart.toNat) % size) ∨
      ∃ bank, b.prgOffset? size addr = some (Banks.offset size Fixed.prgUnit bank addr) := by
  unfold prgOffset?
  rw [hb, if_neg Bool.false_ne_true]
  split
  · exact .inr ⟨_, rfl⟩
  · exact .inl rfl

/-- The ROM window starts at the start of a bank, so what a small ROM shows over and over lies as
far into its bank as the address says. -/
theorem Fixed.small_mod {size : Nat} (hsize : Fixed.prgUnit ∣ size) {addr : UInt16}
    (h : Image.romStart ≤ addr) :
    (addr.toNat - Image.romStart.toNat) % size % Fixed.prgUnit = addr.toNat % Fixed.prgUnit := by
  have hstart : Image.romStart.toNat = 2 * Fixed.prgUnit := rfl
  have hle : 2 * Fixed.prgUnit ≤ addr.toNat := hstart ▸ UInt16.le_iff_toNat_le.mp h
  rw [Nat.mod_mod_of_dvd _ hsize, hstart, Nat.mul_comm 2, Nat.sub_mul_mod (Nat.mul_comm 2 _ ▸ hle)]

/-- In the ROM window every board without a sound program shows a byte; when the ROM has whole
banks, it lies as far into its bank as the address says. -/
theorem prgOffset?_isSome {board : Board} (hboard : board.holdsSound = false) (size : Nat)
    {addr : UInt16} (h : Image.romStart ≤ addr) :
    ∃ offset, board.prgOffset? size addr = some offset ∧
      (board.prgUnit ∣ size → offset % board.prgUnit = addr.toNat % board.prgUnit) := by
  rcases board.prgOffset?_window size h with ⟨b, rfl, hfixed⟩ | ⟨bank, hbank⟩
  · rcases Fixed.prgOffset?_cartridge hboard size addr with hsmall | ⟨bank, hbank⟩
    · exact ⟨_, hfixed.trans hsmall, fun hsize => Fixed.small_mod hsize h⟩
    · exact ⟨_, hfixed.trans hbank, fun hsize => Banks.offset_mod hsize bank addr⟩
  · exact ⟨_, hbank, fun hsize => Banks.offset_mod hsize bank addr⟩

/-- A sound program appears from its load address on, and nowhere else in the ROM window. -/
theorem Fixed.prgOffset?_sound {b : Fixed} (hb : b.isSound = true) (size : Nat) (addr : UInt16)
    (offset : Nat) :
    b.prgOffset? size addr = some offset ↔
      b.loadAddress ≤ addr ∧ addr.toNat < b.loadAddress.toNat + size ∧
        offset = addr.toNat - b.loadAddress.toNat := by
  unfold prgOffset?
  rw [hb, if_pos rfl]
  constructor
  · intro h
    split at h
    · next hin =>
      cases h
      have hle := UInt16.le_iff_toNat_le.mp hin.1
      exact ⟨hin.1, by omega, rfl⟩
    · cases h
  · rintro ⟨hle, hlt, rfl⟩
    have hle' := UInt16.le_iff_toNat_le.mp hle
    rw [if_pos ⟨hle, by omega⟩]

/-- The board without registers is wired as its image asks. -/
theorem powerOn_fixed {i : Image} {b : Fixed} (h : powerOn i = .fixed b) : b = .ofImage i := by
  unfold powerOn at h
  split at h <;> cases h
  rfl

/-! ## Pattern memory -/

/-- Below `$2000` pattern memory is translated by the bank that the board reports. -/
theorem chrOffset_eq (board : Board) (size : Nat) {addr : UInt16} (h : addr < 0x2000) :
    board.chrOffset size addr =
      (board.chrBank size addr * board.chrUnit + addr.toNat % board.chrUnit) % size := by
  have hbanked : (board.chrBank size addr * board.chrUnit + addr.toNat % board.chrUnit) % size =
      Banks.offset size board.chrUnit (board.chrSelect addr) addr := rfl
  cases board with
  | fixed b =>
    have hlt : addr.toNat < 0x2000 := UInt16.lt_iff_toNat_lt.mp h
    have hbank : (Board.fixed b).chrBank size addr = 0 := Nat.zero_mod _
    have hunit : (Board.fixed b).chrUnit = 0x2000 := rfl
    rw [hbank, hunit, Nat.zero_mul, Nat.zero_add, Nat.mod_eq_of_lt hlt]
    rfl
  | discrete b | mmc1 b | mmc3 b | mmc2 b | wide b | ffe b =>
    rw [hbanked]
    exact Banks.offset_mod_count ..

end Board

namespace Cartridge

/-! ## What a cartridge shows -/

/-- The index in pattern memory that the reported bank gives an address. -/
def chrIndex (c : Cartridge) (addr : UInt16) : Nat :=
  (c.chrBank addr * c.board.chrUnit + addr.toNat % c.board.chrUnit) % c.chr.size

/-- What a cartridge made from an image shows at every address. -/
structure Translates (i : Image) (c : Cartridge) : Prop where
  /-- Only the board without registers holds a sound program as such. -/
  holdsSound : c.board.holdsSound = true ↔ i.sound.isSome ∧ ∃ b, c.board = .fixed b
  /-- Below the ROM window no ROM is shown. -/
  below : ∀ addr, addr < Image.romStart → c.prgOffset? addr = none
  /-- No address shows what lies beyond the ROM. -/
  inside : ∀ addr offset, c.prgOffset? addr = some offset → offset < i.prg.size
  /-- In the ROM window a cartridge always shows something, at the place in its bank that the
  address names. -/
  window : c.board.holdsSound = false → ∀ addr, Image.romStart ≤ addr →
    ∃ offset, c.prgOffset? addr = some offset ∧
      (c.board.prgUnit ∣ i.prg.size → offset % c.board.prgUnit = addr.toNat % c.board.prgUnit)
  /-- A sound program appears at its load address. -/
  sound : c.board.holdsSound = true → ∀ addr, Image.romStart ≤ addr → ∀ offset,
    c.prgOffset? addr = some offset ↔
      i.loadAddress ≤ addr ∧ addr.toNat < i.loadAddress.toNat + i.prg.size ∧
        offset = addr.toNat - i.loadAddress.toNat
  /-- The processor reads the byte that the offset names. -/
  read_some : ∀ addr offset, c.prgOffset? addr = some offset →
    i.prg[offset]? = some (c.read addr)
  /-- Where nothing is shown and there is no work RAM the processor reads zero. -/
  read_none : ∀ addr, isWorkRam addr = false → c.prgOffset? addr = none → c.read addr = 0
  /-- The picture unit reads the byte that the reported bank names. -/
  chrRead : ∀ addr, addr < 0x2000 → c.chr.bytes[c.chrIndex addr]? = some (c.chrRead addr)
  /-- It writes the same byte and no other, and only to RAM. -/
  chrWrite : ∀ addr, addr < 0x2000 → ∀ value, ∃ chr : Arena,
    c.chrWrite addr value = { c with chr } ∧
      chr.bytes = if i.chrIsRam then c.chr.bytes.set! (c.chrIndex addr) value else c.chr.bytes

/-- An address of the ROM window is not one of work RAM. -/
theorem isWorkRam_eq_false {addr : UInt16} (h : Image.romStart ≤ addr) :
    isWorkRam addr = false := by
  have hwindow : ¬addr < 0x8000 := UInt16.not_lt.mpr h
  simp [isWorkRam, hwindow]

/-- Program ROM is shown in the ROM window only. -/
theorem romStart_le {c : Cartridge} {addr : UInt16} {offset : Nat}
    (h : c.prgOffset? addr = some offset) : Image.romStart ≤ addr := by
  refine UInt16.not_lt.mp fun hbelow => ?_
  rw [prgOffset?, Board.prgOffset?_below _ _ hbelow] at h
  cases h

/-- Where an address shows program ROM, the processor reads it. -/
theorem read_eq_get {c : Cartridge} {addr : UInt16} {offset : Nat}
    (h : c.prgOffset? addr = some offset) : c.read addr = c.prg.get offset := by
  rw [read, isWorkRam_eq_false (romStart_le h), if_neg Bool.false_ne_true, h]

/-- In the ROM window there is nothing to read besides. -/
theorem read_eq_zero {c : Cartridge} {addr : UInt16} (haddr : Image.romStart ≤ addr)
    (h : c.prgOffset? addr = none) : c.read addr = 0 := by
  rw [read, isWorkRam_eq_false haddr, if_neg Bool.false_ne_true, h]

theorem chrIndex_lt (c : Cartridge) (addr : UInt16) : c.chrIndex addr < c.chr.size :=
  Nat.mod_lt _ c.chr.size_pos

/-- The picture unit goes where the reported bank says. -/
theorem chrOffset_eq_chrIndex (c : Cartridge) {addr : UInt16} (h : addr < 0x2000) :
    c.chrOffset addr = c.chrIndex addr := c.board.chrOffset_eq c.chr.size h

theorem chrWrite_bytes (c : Cartridge) {addr : UInt16} (h : addr < 0x2000) (value : UInt8) :
    ∃ chr : Arena, c.chrWrite addr value = { c with chr } ∧
      chr.bytes =
        if c.chrIsRam then c.chr.bytes.set! (c.chrIndex addr) value else c.chr.bytes := by
  unfold chrWrite
  rw [chrOffset_eq_chrIndex c h]
  split
  · exact ⟨_, rfl, Arena.bytes_set (c.chrIndex_lt addr) value⟩
  · exact ⟨c.chr, rfl, rfl⟩

/-- A cartridge with the board without registers had it from the start. -/
theorem Kin.board_fixed {c d : Cartridge} (h : Kin c d) {b : Board.Fixed}
    (hd : d.board = .fixed b) : c.board = .fixed b := by
  have hinstall : c.board.install? .fixed = some (.fixed b) := by
    rw [h.registers, hd]
    rfl
  cases hc : c.board with
  | fixed b' =>
    rw [hc] at hinstall
    exact Option.some.inj hinstall
  | discrete b' | mmc1 b' | mmc3 b' | mmc2 b' | wide b' | ffe b' =>
    rw [hc] at hinstall
    cases hinstall

/-- Any registers of the board's kind make a cartridge that play could lead to. -/
theorem kin_install {c : Cartridge} {board : Board} {r : Board.Registers}
    (h : c.board.install? r = some board) : Kin c { c with board } :=
  kin_board fun q => (Board.install?_install? h q).symm

/-- Any cartridge that play can make of it translates as its image says. -/
theorem translates_of_kin {i : Image} {c d : Cartridge} (hmade : ofImage i = .ok c)
    (h : Kin c d) : Translates i d := by
  obtain ⟨_, rfl⟩ := ofImage_eq_ok_iff.mp hmade
  have hprg : d.prg.bytes = i.prg := (congrArg Arena.bytes h.prg).symm
  have hsize : d.prg.size = i.prg.size := congrArg Array.size hprg
  constructor
  case holdsSound =>
    cases hd : d.board with
    | fixed b =>
      -- play leaves the wiring alone, so the board is still the image's
      have hwired : b = .ofImage i := Board.powerOn_fixed (h.board_fixed hd)
      rw [hwired]
      exact ⟨fun hsound => ⟨hsound, _, rfl⟩, fun hsound => hsound.1⟩
    | discrete b | mmc1 b | mmc3 b | mmc2 b | wide b | ffe b =>
      constructor
      · intro hsound
        cases hsound
      · rintro ⟨-, b', hfixed⟩
        cases hfixed
  case below =>
    intro addr hbelow
    exact Board.prgOffset?_below _ _ hbelow
  case inside =>
    intro addr offset hoffset
    exact hsize ▸ prgOffset?_lt hoffset
  case window =>
    intro hboard addr hwindow
    exact hsize ▸ Board.prgOffset?_isSome hboard d.prg.size hwindow
  case sound =>
    intro hboard addr hwindow offset
    cases hd : d.board with
    | fixed b =>
      rw [hd] at hboard
      have hwired : b = .ofImage i := Board.powerOn_fixed (h.board_fixed hd)
      have hlow : ¬addr < Image.romStart := UInt16.not_lt.mpr hwindow
      rw [prgOffset?, hd, Board.prgOffset?, if_neg hlow, Board.Fixed.prgOffset?_sound hboard,
        hsize, hwired]
      rfl
    | discrete b | mmc1 b | mmc3 b | mmc2 b | wide b | ffe b =>
      rw [hd] at hboard
      cases hboard
  case read_some =>
    intro addr offset hoffset
    rw [read_eq_get hoffset, ← hprg]
    exact Arena.getElem?_bytes (prgOffset?_lt hoffset)
  case read_none =>
    intro addr hram hnone
    rw [read, hram, if_neg Bool.false_ne_true, hnone]
  case chrRead =>
    intro addr haddr
    rw [Cartridge.chrRead, chrOffset_eq_chrIndex d haddr]
    exact Arena.getElem?_bytes (d.chrIndex_lt addr)
  case chrWrite =>
    intro addr haddr value
    have hram : i.chrIsRam = d.chrIsRam := h.chrIsRam
    rw [hram]
    exact d.chrWrite_bytes haddr value

/-- From an image with any program ROM a cartridge can be made.  Whatever is then in its registers
and its RAM, and whatever registers are installed from a saved state, it translates all addresses
into its memory, and shows what it translates to. -/
theorem translates_ofImage (i : Image) (hprg : 0 < i.prg.size) :
    ∃ c, ofImage i = .ok c ∧ ∀ d, Kin c d → Translates i d ∧
      ∀ r board, d.board.install? r = some board → Translates i { d with board } := by
  refine ⟨_, dif_pos hprg, fun d h => ⟨translates_of_kin (dif_pos hprg) h, ?_⟩⟩
  intro r board hinstall
  exact translates_of_kin (dif_pos hprg) (h.trans (kin_install hinstall))

/-- An image with three bytes of program ROM. -/
def stub : Image where
  mapper := 4
  mirroring := .vertical
  fourScreen := false
  battery := false
  prg := #[0x4C, 0x00, 0x80]
  chr := #[]
  chrIsRam := true
  workRamSize := 0
  loadAddress := Image.romStart
  sound := none

/-- Three bytes are enough. -/
theorem translates_stub :
    0 < stub.prg.size ∧ ∃ c, ofImage stub = .ok c ∧ ∀ d, Kin c d → Translates stub d ∧
      ∀ r board, d.board.install? r = some board → Translates stub { d with board } :=
  ⟨by decide, translates_ofImage stub (by decide)⟩

end Cartridge

end Famicom
