import Famicom.Console.Bus
import Famicom.Proofs.Cartridge.BankSelection
import Mathlib.Data.Nat.Bitwise
import Mathlib.Tactic.SplitIfs

/-!
# The latches of MMC2 and MMC4

These boards show each half of pattern memory through one of two registers, and a latch says which.
Fetching a marker tile sets the latch of its half, after the fetch has been answered.  Told from the
whole history of the bus, a fetch shows the bank that was last written to the register named by the
last marker that was fetched from its half before.

* `lastSet_concat` — what was set last, in a history that goes on.
* `trigger?_eq_some_iff` — the markers.
* `Recalls.fetch`, `Recalls.write` — what the registers and latches remember of the history.
* `fetches_latched` — a bus with a cartridge from power-on, whatever it is used for.
-/

namespace Famicom

/-! ## Histories -/

namespace Bus

/-- A use of the bus, by the picture unit or by the processor. -/
inductive Use
  | fetch (addr : UInt16)
  | patternWrite (addr : UInt16) (value : UInt8)
  | write (addr : UInt16) (value : UInt8)

/-- The use writes pattern memory. -/
def Use.writesPattern : Use → Bool
  | .patternWrite _ _ => true
  | _ => false

/-- The bus after a use. -/
def used (b : Bus) : Use → Bus
  | .fetch addr => (b.chrRead addr).2
  | .patternWrite addr value => b.chrWrite addr value
  | .write addr value => AddressSpace.write addr value b

/-- The bus after some uses. -/
def uses (b : Bus) (past : List Use) : Bus := past.foldl used b

/-- What was set last, if anything was. -/
def Use.lastSet {α : Type} (set? : Use → Option α) (start : α) (past : List Use) : α :=
  (past.filterMap set?).getLast?.getD start

/-- The latest use decides, if it sets anything. -/
theorem Use.lastSet_concat {α : Type} (set? : Use → Option α) (start : α) (past : List Use)
    (use : Use) :
    lastSet set? start (past ++ [use]) = (set? use).getD (lastSet set? start past) := by
  unfold lastSet
  rw [List.filterMap_append]
  cases huse : set? use with
  | none =>
    rw [List.filterMap_cons_none huse, List.filterMap_nil, List.append_nil]
    rfl
  | some value =>
    rw [List.filterMap_cons_some huse, List.filterMap_nil, List.getLast?_concat]
    rfl

end Bus

namespace Board.Mmc2

open Bus (Use)

/-! ## Markers and registers -/

/-- The number of a board in images. -/
def Model.number : Model → UInt16
  | mmc2 => 9
  | mmc4 => 10

/-- The first and the last address of the marker that sets the latch of a half. -/
def marker : (model : Model) → (upper isFe : Bool) → Nat × Nat
  | .mmc2, false, false => (0x0FD8, 0x0FD8)
  | .mmc2, false, true => (0x0FE8, 0x0FE8)
  | .mmc4, false, false => (0x0FD8, 0x0FDF)
  | .mmc4, false, true => (0x0FE8, 0x0FEF)
  | _, true, false => (0x1FD8, 0x1FDF)
  | _, true, true => (0x1FE8, 0x1FEF)

/-- An address lies in the marker.  Pattern addresses have 13 bits. -/
def InMarker (model : Model) (upper isFe : Bool) (addr : UInt16) : Prop :=
  (marker model upper isFe).1 ≤ addr.toNat % 0x2000 ∧
    addr.toNat % 0x2000 ≤ (marker model upper isFe).2

instance (model : Model) (upper isFe : Bool) (addr : UInt16) :
    Decidable (InMarker model upper isFe addr) := inferInstanceAs (Decidable (_ ∧ _))

/-- What a use sets the latch of a half to. -/
def latched? (model : Model) (upper : Bool) : Use → Option Bool
  | .fetch addr =>
    if InMarker model upper false addr then some false
    else if InMarker model upper true addr then some true
    else none
  | _ => none

/-- A fetch sets a latch just if it is in one of the two markers. -/
theorem latched?_fetch (model : Model) (upper : Bool) (addr : UInt16) :
    latched? model upper (.fetch addr) =
      if InMarker model upper false addr then some false
      else if InMarker model upper true addr then some true
      else none := rfl

/-- The 4 KiB of addresses behind which a bank register lies. -/
def registerPage : (upper isFe : Bool) → Nat
  | false, false => 0xB
  | false, true => 0xC
  | true, false => 0xD
  | true, true => 0xE

/-- What a use writes to a bank register. -/
def filled? (upper isFe : Bool) : Use → Option UInt8
  | .write addr value =>
    if addr.toNat / 0x1000 = registerPage upper isFe then some (value &&& 0x1F) else none
  | _ => none

/-- A write fills the register that its page belongs to. -/
theorem filled?_write (upper isFe : Bool) (addr : UInt16) (value : UInt8) :
    filled? upper isFe (.write addr value) =
      if addr.toNat / 0x1000 = registerPage upper isFe then some (value &&& 0x1F) else none := rfl

/-- The latch of a half after a history: FE until something else is set. -/
def latchAfter (model : Model) (upper : Bool) (past : List Use) : Bool :=
  Use.lastSet (latched? model upper) true past

/-- A bank register after a history. -/
def registerAfter (upper isFe : Bool) (past : List Use) : UInt8 :=
  Use.lastSet (filled? upper isFe) 0 past

/-- The bank, before it wraps, that a history makes a half show. -/
def bankAfter (model : Model) (upper : Bool) (past : List Use) : Nat :=
  (registerAfter upper (latchAfter model upper past) past).toNat

namespace Registers

/-- The latch of a half. -/
def isFe (r : Registers) (upper : Bool) : Bool := if upper then r.upperIsFe else r.lowerIsFe

/-- A bank register. -/
def bank (r : Registers) : (upper isFe : Bool) → UInt8
  | false, false => r.lowerFd
  | false, true => r.lowerFe
  | true, false => r.upperFd
  | true, true => r.upperFe

/-- A write changes the one register that it fills. -/
theorem bank_write (r : Registers) (addr : UInt16) (value : UInt8) (upper isFe : Bool) :
    (r.write addr value).bank upper isFe =
      (filled? upper isFe (.write addr value)).getD (r.bank upper isFe) := by
  rw [filled?_write, write]
  simp only [UInt16.lt_iff_toNat_lt, UInt16.reduceToNat]
  -- A page lies between two of the bounds that the board compares with.
  by_cases hpage : addr.toNat / 0x1000 = registerPage upper isFe
  · rw [if_pos hpage]
    cases upper <;> cases isFe <;> simp only [registerPage] at hpage <;> grind [bank]
  · rw [if_neg hpage]
    cases upper <;> cases isFe <;> simp only [registerPage] at hpage <;> grind [bank]

/-- Writes leave the latches as they are. -/
theorem isFe_write (r : Registers) (addr : UInt16) (value : UInt8) (upper : Bool) :
    (r.write addr value).isFe upper = r.isFe upper := by
  unfold write
  split_ifs <;> rfl

end Registers

/-- What a fetch from the marker of a half does. -/
def Trigger.of : (upper isFe : Bool) → Trigger
  | false, isFe => .lower isFe
  | true, isFe => .upper isFe

/-- The triggers are the fetches from the markers. -/
theorem trigger?_eq_some_iff {model : Model} {upper isFe : Bool} {addr : UInt16} :
    trigger? model addr = some (.of upper isFe) ↔ InMarker model upper isFe addr := by
  unfold trigger? InMarker
  generalize addr.toNat % 0x2000 = a
  cases model <;> cases upper <;> cases isFe <;> simp only [marker, Trigger.of] <;>
    split_ifs <;> simp <;> omega

/-- A fetch sets the latch of its half, if it is in a marker. -/
theorem isFe_observe (b : Mmc2) (addr : UInt16) (upper : Bool) :
    (b.observe addr).regs.isFe upper =
      (latched? b.model upper (.fetch addr)).getD (b.regs.isFe upper) := by
  have htrigger (isFe : Bool) (h : InMarker b.model upper isFe addr) :
      (b.observe addr).regs.isFe upper = isFe := by
    unfold observe
    rw [trigger?_eq_some_iff.mpr h]
    cases upper <;> rfl
  rw [latched?_fetch]
  by_cases hfd : InMarker b.model upper false addr
  · rw [if_pos hfd, htrigger false hfd]
    rfl
  by_cases hfe : InMarker b.model upper true addr
  · rw [if_neg hfd, if_pos hfe, htrigger true hfe]
    rfl
  rw [if_neg hfd, if_neg hfe]
  have hnone (isFe : Bool) : trigger? b.model addr ≠ some (.of upper isFe) := by
    intro h
    cases isFe with
    | false => exact hfd (trigger?_eq_some_iff.mp h)
    | true => exact hfe (trigger?_eq_some_iff.mp h)
  -- If the fetch triggers anything, then in the other half.
  unfold observe
  split
  · next isFe h =>
    cases upper with
    | false => exact absurd h (hnone isFe)
    | true => rfl
  · next isFe h =>
    cases upper with
    | false => rfl
    | true => exact absurd h (hnone isFe)
  · rfl

/-- Fetches leave the bank registers as they are. -/
theorem bank_observe (b : Mmc2) (addr : UInt16) (upper isFe : Bool) :
    (b.observe addr).regs.bank upper isFe = b.regs.bank upper isFe := by
  unfold observe
  split <;> cases upper <;> cases isFe <;> rfl

theorem model_observe (b : Mmc2) (addr : UInt16) : (b.observe addr).model = b.model := by
  unfold observe
  split <;> rfl

/-! ## The board remembers -/

/-- The latches and bank registers are what they were last set to. -/
structure Recalls (model : Model) (past : List Use) (b : Mmc2) : Prop where
  kind : b.model = model
  latch : ∀ upper, b.regs.isFe upper = latchAfter model upper past
  bank : ∀ upper isFe, b.regs.bank upper isFe = registerAfter upper isFe past

/-- A new board recalls nothing. -/
theorem recalls_powerOn (model : Model) (i : Image) : Recalls model [] (.powerOn model i) where
  kind := rfl
  latch upper := by cases upper <;> rfl
  bank upper isFe := by cases upper <;> cases isFe <;> rfl

/-- The board takes no notice of a use that sets none of them. -/
theorem Recalls.skip {model : Model} {past : List Use} {b : Mmc2} (h : Recalls model past b)
    (use : Use) (hlatch : ∀ upper, latched? model upper use = none)
    (hbank : ∀ upper isFe, filled? upper isFe use = none) : Recalls model (past ++ [use]) b where
  kind := h.kind
  latch upper := by rw [latchAfter, Use.lastSet_concat, hlatch, h.latch]; rfl
  bank upper isFe := by rw [registerAfter, Use.lastSet_concat, hbank, h.bank]; rfl

/-- The picture unit's addresses have 13 bits. -/
theorem toNat_patternAddr (addr : UInt16) : (addr &&& 0x1FFF).toNat = addr.toNat % 0x2000 := by
  rw [UInt16.toNat_and]
  exact Nat.and_two_pow_sub_one_eq_mod addr.toNat 13

/-- Folding an address into pattern memory does not move it out of a marker. -/
theorem inMarker_patternAddr {model : Model} {upper isFe : Bool} {addr : UInt16} :
    InMarker model upper isFe (addr &&& 0x1FFF) ↔ InMarker model upper isFe addr := by
  unfold InMarker
  rw [toNat_patternAddr, Nat.mod_mod]

/-- So it sets the same latch. -/
theorem latched?_patternAddr (model : Model) (upper : Bool) (addr : UInt16) :
    latched? model upper (.fetch (addr &&& 0x1FFF)) = latched? model upper (.fetch addr) := by
  simp only [latched?_fetch, inMarker_patternAddr]

/-- **One fetch.** -/
theorem Recalls.fetch {model : Model} {past : List Use} {b : Mmc2} (h : Recalls model past b)
    (addr : UInt16) : Recalls model (past ++ [.fetch addr]) (b.observe (addr &&& 0x1FFF)) where
  kind := (b.model_observe _).trans h.kind
  latch upper := by
    rw [isFe_observe, h.kind, latched?_patternAddr, h.latch, latchAfter, latchAfter,
      Use.lastSet_concat]
  bank upper isFe := by
    rw [bank_observe, h.bank, registerAfter, registerAfter, Use.lastSet_concat]
    rfl

/-- Below the ROM window nothing is written to the board. -/
theorem operated_write_eq (b : Mmc2) (addr : UInt16) (value : UInt8) :
    (Board.mmc2 b).operated (.act (.write addr value)) = .mmc2 { b with
      regs := if addr < Image.romStart then b.regs else b.regs.write addr value } := by
  rw [Board.operated_write_eq (by simp)]
  split <;> rfl

/-- **One write.** -/
theorem Recalls.write {model : Model} {past : List Use} {b : Mmc2} (h : Recalls model past b)
    (addr : UInt16) (value : UInt8) :
    Recalls model (past ++ [.write addr value]) { b with
      regs := if addr < Image.romStart then b.regs else b.regs.write addr value } := by
  by_cases hlow : addr < Image.romStart
  · have hpage : addr.toNat < 0x8000 := UInt16.lt_iff_toNat_lt.mp hlow
    have hnone (upper isFe : Bool) : filled? upper isFe (.write addr value) = none := by
      refine if_neg ?_
      cases upper <;> cases isFe <;> simp only [registerPage] <;> omega
    rw [if_pos hlow]
    exact h.skip _ (fun _ => rfl) hnone
  · rw [if_neg hlow]
    refine ⟨h.kind, fun upper => ?_, fun upper isFe => ?_⟩
    · rw [Registers.isFe_write, h.latch, latchAfter, latchAfter, Use.lastSet_concat]
      rfl
    · rw [Registers.bank_write, h.bank, registerAfter, registerAfter, Use.lastSet_concat]

/-- Bit 12 of a pattern address tells the half. -/
theorem patternAddr_lower_iff (addr : UInt16) :
    (addr &&& 0x1FFF) &&& 0x1000 = 0 ↔ ¬0x1000 ≤ addr.toNat % 0x2000 := by
  have hlt : addr.toNat % 0x2000 < 0x2000 := Nat.mod_lt _ (by decide)
  have hbit : (addr.toNat % 0x2000).testBit 12 = decide (0x1000 ≤ addr.toNat % 0x2000) := by
    rw [Nat.testBit_eq_decide_div_mod_eq, decide_eq_decide]
    omega
  rw [← UInt16.toNat_inj, UInt16.toNat_and, toNat_patternAddr]
  show addr.toNat % 0x2000 &&& 2 ^ 12 = 0 ↔ _
  rw [Nat.and_two_pow, hbit]
  by_cases hupper : 0x1000 ≤ addr.toNat % 0x2000 <;> simp [hupper]

/-- The bank that an address shows. -/
theorem Recalls.chrBankAt_eq {model : Model} {past : List Use} {b : Mmc2}
    (h : Recalls model past b) (addr : UInt16) :
    b.chrBankAt (addr &&& 0x1FFF) =
      bankAfter model (decide (0x1000 ≤ addr.toNat % 0x2000)) past := by
  have hshown (upper : Bool) :
      (b.regs.bank upper (b.regs.isFe upper)).toNat = bankAfter model upper past := by
    rw [bankAfter, h.bank, h.latch]
  unfold chrBankAt
  by_cases hupper : 0x1000 ≤ addr.toNat % 0x2000
  · rw [if_neg fun hlow => (patternAddr_lower_iff addr).mp hlow hupper, decide_eq_true hupper,
      ← hshown]
    cases hfe : b.regs.upperIsFe <;> simp [Registers.isFe, Registers.bank, hfe]
  · rw [if_pos ((patternAddr_lower_iff addr).mpr hupper), decide_eq_false hupper, ← hshown]
    cases hfe : b.regs.lowerIsFe <;> simp [Registers.isFe, Registers.bank, hfe]

end Board.Mmc2

/-! ## The bus -/

theorem Cartridge.chr_ofImage {i : Image} {made : Cartridge} (h : ofImage i = .ok made)
    (hchr : 0 < i.chr.size) : made.chr.bytes = i.chr := by
  obtain ⟨_, rfl⟩ := ofImage_eq_ok_iff.mp h
  exact congrArg Arena.bytes (dif_pos hchr)

namespace Bus

open Board.Mmc2

/-- The cartridge sees the writes of the processor from `$4020` on. -/
theorem cartridge_write {b : Bus} {c : Cartridge} (h : b.cartridge = some c) (addr : UInt16)
    (value : UInt8) :
    (AddressSpace.write addr value b).cartridge =
      some (if addr < 0x4020 then c else c.write addr value) := by
  show (store addr value (b.count addr Tally.write)).cartridge = _
  unfold store Region.of
  by_cases hio : addr < 0x4020
  · rw [if_pos hio, if_pos hio]
    split_ifs <;> exact h
  · have hlow {bound : UInt16} (hbound : bound ≤ 0x4020) : ¬addr < bound :=
      fun hlt => hio (UInt16.lt_of_lt_of_le hlt hbound)
    rw [if_neg (hlow (by decide)), if_neg (hlow (by decide)), if_neg hio, if_neg hio]
    exact congrArg (Option.map (·.write addr value)) h

/-- The bus has a cartridge that remembers what the bus was used for. -/
structure Plays (made : Cartridge) (model : Model) (past : List Use) (b : Bus) (c : Cartridge) :
    Prop where
  attached : b.cartridge = some c
  board : ∃ latches, c.board = .mmc2 latches ∧ Recalls model past latches
  size : c.chr.size = made.chr.size
  rom : (∀ use ∈ past, use.writesPattern = false) → c.chr = made.chr

variable {made c : Cartridge} {model : Model} {past : List Use} {b : Bus}

/-- **One use of the bus.** -/
theorem Plays.used (h : Plays made model past b c) (use : Use) :
    ∃ d, Plays made model (past ++ [use]) (b.used use) d := by
  obtain ⟨latches, hboard, hrecalls⟩ := h.board
  have hearlier (hall : ∀ u ∈ past ++ [use], u.writesPattern = false) :
      c.chr = made.chr := h.rom fun u hu => hall u (List.mem_append_left _ hu)
  cases use with
  | fetch addr =>
    refine ⟨c.observe (addr &&& 0x1FFF), ?_, ⟨_, ?_, hrecalls.fetch addr⟩, h.size, hearlier⟩
    · unfold Bus.used chrRead
      rw [h.attached]
    · rw [Cartridge.observe, hboard]
      rfl
  | patternWrite addr value =>
    have hskip := hrecalls.skip (.patternWrite addr value) (fun _ => rfl) (fun _ _ => rfl)
    have hkin := c.kin_acted (.chrWrite (addr &&& 0x1FFF) value)
    refine ⟨c.chrWrite (addr &&& 0x1FFF) value, ?_, ⟨latches, ?_, hskip⟩, ?_, fun hall => ?_⟩
    · exact congrArg (Option.map (·.chrWrite (addr &&& 0x1FFF) value)) h.attached
    · unfold Cartridge.chrWrite
      split <;> exact hboard
    · exact hkin.chrRam.symm.trans h.size
    · cases hall (.patternWrite addr value) (List.mem_append_right _ (List.mem_singleton_self _))
  | write addr value =>
    have hchr : (if addr < 0x4020 then c else c.write addr value).chr = c.chr := by
      unfold Cartridge.write
      split_ifs <;> rfl
    refine ⟨_, cartridge_write h.attached addr value, ⟨_, ?_, hrecalls.write addr value⟩,
      (congrArg Arena.size hchr).trans h.size, fun hall => hchr.trans (hearlier hall)⟩
    by_cases hio : addr < 0x4020
    · have hlow : addr < Image.romStart := UInt16.lt_trans hio (by decide)
      rw [if_pos hio, if_pos hlow, hboard]
    · have hrestores : (Cartridge.Operation.act (.write addr value)).restores = false := rfl
      rw [if_neg hio, ← operated_write_eq, ← hboard]
      exact c.board_operate hrestores

/-- **A run of uses.** -/
theorem Plays.uses (h : Plays made model past b c) (later : List Use) :
    ∃ d, Plays made model (past ++ later) (b.uses later) d := by
  induction later generalizing past b c with
  | nil => exact ⟨c, (List.append_nil past).symm ▸ h⟩
  | cons use rest ih =>
    obtain ⟨d, hd⟩ := h.used use
    rw [List.append_cons]
    exact ih hd

/-- What a fetch gets. -/
theorem Plays.chrRead (h : Plays made model past b c) (addr : UInt16) :
    let count := Banks.count c.chr.size 0x1000
    let bank := bankAfter model (decide (0x1000 ≤ addr.toNat % 0x2000)) past
    c.chr.bytes[(bank % count * 0x1000 + addr.toNat % 0x1000) % c.chr.size]? =
      some (b.chrRead addr).1 := by
  intro count bank
  obtain ⟨latches, hboard, hrecalls⟩ := h.board
  have hread : (b.chrRead addr).1 = c.chrRead (addr &&& 0x1FFF) := by
    unfold Bus.chrRead
    rw [h.attached]
  have hoffset : c.chrOffset (addr &&& 0x1FFF) =
      (bank % count * 0x1000 + addr.toNat % 0x1000) % c.chr.size := by
    have hinside : (addr &&& 0x1FFF).toNat % 0x1000 = addr.toNat % 0x1000 := by
      rw [toNat_patternAddr]
      omega
    unfold Cartridge.chrOffset
    rw [hboard]
    show (latches.chrBankAt _ % count % count * 0x1000 + _) % _ = _
    rw [hrecalls.chrBankAt_eq, Nat.mod_mod]
    exact congrArg (fun inside => (bank % count * 0x1000 + inside) % c.chr.size) hinside
  rw [hread, Cartridge.chrRead, hoffset]
  exact Arena.getElem?_bytes (Nat.mod_lt _ c.chr.size_pos)

/-- A cartridge that was put in has no past. -/
theorem plays_attach {i : Image} (hmapper : i.mapper = model.number)
    (hmade : Cartridge.ofImage i = .ok made) (b : Bus) :
    Plays made model [] (b.attach made) made where
  attached := rfl
  board := by
    refine ⟨_, ?_, recalls_powerOn model i⟩
    rw [Cartridge.board_ofImage hmade, Board.powerOn, hmapper]
    cases model <;> rfl
  size := rfl
  rom _ := rfl

/-- Pattern memory of one bank or more has every byte of the banks that are counted. -/
theorem lt_size_of_bank {size : Nat} (hsize : 0x1000 ≤ size) (bank inside : Nat) :
    bank % Banks.count size 0x1000 * 0x1000 + inside % 0x1000 < size := by
  have hcount : Banks.count size 0x1000 = size / 0x1000 :=
    Nat.max_eq_left (Nat.div_pos hsize (by decide))
  have hbank : bank % Banks.count size 0x1000 < Banks.count size 0x1000 :=
    Nat.mod_lt _ (Banks.count_pos _ _)
  rw [hcount] at hbank ⊢
  omega

/-- **The latches.**  A bus with a cartridge made for MMC2 or MMC4, whatever it has been used for: a
fetch gets the byte that lies behind its address in a bank of 4 KiB, counted round the whole banks
that there are.  The bank is the one last written to a register of its half of pattern memory, to
the one named by the last marker fetched from that half before. -/
theorem fetches_latched {i : Image} (hmapper : i.mapper = model.number)
    (hmade : Cartridge.ofImage i = .ok made) (b : Bus) (past : List Use) :
    let bus := (b.attach made).uses past
    ∃ c, bus.cartridge = some c ∧ c.chr.size = made.chr.size ∧
      ((∀ use ∈ past, use.writesPattern = false) → c.chr = made.chr) ∧
      ∀ addr : UInt16,
        let count := Banks.count c.chr.size 0x1000
        let bank := bankAfter model (decide (0x1000 ≤ addr.toNat % 0x2000)) past
        let offset := bank % count * 0x1000 + addr.toNat % 0x1000
        c.chr.bytes[offset % c.chr.size]? = some (bus.chrRead addr).1 ∧
        (0x1000 ≤ c.chr.size → offset < c.chr.size) := by
  intro bus
  obtain ⟨c, hplays⟩ := (plays_attach hmapper hmade b).uses past
  rw [List.nil_append] at hplays
  exact ⟨c, hplays.attached, hplays.size, hplays.rom, fun addr =>
    ⟨hplays.chrRead addr, fun hsize => lt_size_of_bank hsize _ _⟩⟩

/-- The lower half of MMC2 shows bank 11, which of eight is bank 3.  Fetching the marker for FD
still gets that one, and the next fetch bank 2. -/
theorem fetches_latched_numbered :
    ∃ i made, Image.cartridge 9 (Cartridge.bankedRom 1) (Cartridge.numbered 8 0x1000) = .ok i ∧
      Cartridge.ofImage i = .ok made ∧
      let bus := (powerOn.attach made).uses [.write 0xB000 2, .write 0xC000 11]
      (bus.chrRead 0x0FD8).1 = 3 ∧ ((bus.used (.fetch 0x0FD8)).chrRead 0x0FD8).1 = 2 := by
  have hrom : (Cartridge.bankedRom 1).size = 1 * 0x2000 := Array.size_replicate
  have hpattern := Cartridge.size_numbered 8 0x1000
  obtain ⟨i, haccepted, hmapper, hprg, hchr⟩ :=
    Image.exists_cartridge 9 (Cartridge.bankedRom 1) (Cartridge.numbered 8 0x1000)
      (by rw [hrom]; decide) (by rw [hrom]; decide) (by rw [hpattern]; decide)
  obtain ⟨made, hmade⟩ : ∃ made, Cartridge.ofImage i = .ok made :=
    ⟨_, dif_pos (by rw [hprg, hrom]; decide)⟩
  refine ⟨i, made, haccepted, hmade, ?_⟩
  intro bus
  have hnonempty : 0 < (Cartridge.numbered 8 0x1000).size := by rw [hpattern]; decide
  have hbytes : made.chr.bytes = Cartridge.numbered 8 0x1000 :=
    (Cartridge.chr_ofImage hmade (hchr hnonempty ▸ hnonempty)).trans (hchr hnonempty)
  have hsize : made.chr.size = 8 * 0x1000 := (congrArg Array.size hbytes).trans hpattern
  have hnumber : i.mapper = Model.mmc2.number := hmapper
  -- every bank of pattern memory holds its own number, so the byte tells the bank
  have hread (past : List Use) (hpast : ∀ use ∈ past, use.writesPattern = false) :
      (((powerOn.attach made).uses past).chrRead 0x0FD8).1 =
        UInt8.ofNat (bankAfter .mmc2 false past % 8) := by
    obtain ⟨c, -, -, hrom, hfetch⟩ := fetches_latched hnumber hmade powerOn past
    obtain ⟨hbyte, hinside⟩ := hfetch 0x0FD8
    have hcount : Banks.count (8 * 0x1000) 0x1000 = 8 := by decide
    have hlower : decide (0x1000 ≤ (0x0FD8 : UInt16).toNat % 0x2000) = false := by decide
    have hbank : bankAfter .mmc2 false past % 8 < 8 := Nat.mod_lt _ (by decide)
    have hinMemory : (0x0FD8 : UInt16).toNat % 0x1000 < 0x1000 := Nat.mod_lt _ (by decide)
    rw [hrom hpast, hsize, hcount, hlower] at hbyte hinside
    rw [Nat.mod_eq_of_lt (hinside (by decide)), hbytes,
      Cartridge.getElem?_numbered hbank hinMemory] at hbyte
    exact (Option.some.inj hbyte).symm
  have hlater := hread [.write 0xB000 2, .write 0xC000 11, .fetch 0x0FD8] (by decide)
  exact ⟨hread _ (by decide), hlater⟩

end Bus

end Famicom
