import Famicom.Cartridge.Basic
import Famicom.Json.Decode

/-!
# Saved cartridges

The registers of a board and the contents of a cartridge's RAM as JSON.  Registers are tagged with
their kind; memory is written in base64.
-/

namespace Famicom.Snapshot

open Board

/-! ## Parts of registers -/

/-- Bytes as text. -/
def bytesToJson (bytes : Array UInt8) : Json := .str (Base64.encode bytes.toList)

/-- The bytes that a text stands for. -/
def bytesOfJson? (j : Json) : Option (Array UInt8) := do Base64.decode? (← j.text?)

/-- The name of an arrangement of screens. -/
def mirroringToJson (m : Mirroring) : Json := .str m.name

/-- The arrangement of screens that a value names, by a reader of names. -/
def mirroringOfJson? (name? : Json → Option String) (j : Json) : Option Mirroring := do
  Mirroring.ofName? (← name? j)

/-- A row of bytes as an array of numbers. -/
def rowToJson {n : Nat} (v : Vector UInt8 n) : Json := .array (v.toList.map fun b => .nat b.toNat)

/-- The row of `n` bytes in an array of numbers. -/
def rowOfJson? (n : Nat) (j : Json) : Option (Vector UInt8 n) := do
  let bytes ← (← j.items?).mapM Json.uint8?
  if h : bytes.toArray.size = n then return ⟨bytes.toArray, h⟩ else none

/-! ## Registers of each family -/

/-- The register of the discrete boards. -/
def discreteToJson (r : Discrete.Registers) : Json := .record [("bank_select", .nat r.bank.toNat)]

def discreteOfJson? (j : Json) : Option Discrete.Registers := do
  match ← Json.record? ["bank_select"] false j with
  | [bank] => return { bank := ← Json.uint8? (← bank) }
  | _ => none

/-- The registers of MMC1. -/
def mmc1ToJson (r : Mmc1) : Json :=
  .record [
    ("shift_register", .nat r.shift.toNat),
    ("control", .nat r.control.toNat),
    ("chr_bank0", .nat r.chrBank0.toNat),
    ("chr_bank1", .nat r.chrBank1.toNat),
    ("prg_bank", .nat r.prgBank.toNat)]

def mmc1Fields : List String := ["shift_register", "control", "chr_bank0", "chr_bank1", "prg_bank"]

def mmc1OfJson? (j : Json) : Option Mmc1 := do
  match ← Json.record? mmc1Fields false j with
  | [shift, control, chrBank0, chrBank1, prgBank] =>
    return {
      shift := ← Json.uint8? (← shift)
      control := ← Json.uint8? (← control)
      chrBank0 := ← Json.uint8? (← chrBank0)
      chrBank1 := ← Json.uint8? (← chrBank1)
      prgBank := ← Json.uint8? (← prgBank) }
  | _ => none

/-- The registers of MMC3. -/
def mmc3ToJson (r : Mmc3.Registers) : Json :=
  .record [
    ("bank_select", .nat r.bankSelect.toNat),
    ("bank_regs", rowToJson r.banks),
    ("mirroring", mirroringToJson r.mirroring),
    ("prg_ram_enabled", .bool r.workRamEnabled),
    ("prg_ram_write_protect", .bool r.workRamProtected),
    ("irq_latch", .nat r.irqLatch.toNat),
    ("irq_counter", .nat r.irqCounter.toNat),
    ("irq_reload", .bool r.irqReload),
    ("irq_enabled", .bool r.irqEnabled),
    ("irq_pending", .bool r.irqPending),
    ("last_a12", .bool r.lastA12),
    ("a12_low_reads", .nat r.a12LowReads.toNat)]

def mmc3Fields : List String :=
  ["bank_select", "bank_regs", "mirroring", "prg_ram_enabled", "prg_ram_write_protect", "irq_latch",
    "irq_counter", "irq_reload", "irq_enabled", "irq_pending", "last_a12", "a12_low_reads"]

def mmc3OfJson? (name? : Json → Option String) (j : Json) : Option Mmc3.Registers := do
  match ← Json.record? mmc3Fields false j with
  | [bankSelect, banks, mirroring, enabled, protect, latch, counter, reload, irqEnabled, irqPending,
      lastA12, lowReads] =>
    return {
      bankSelect := ← Json.uint8? (← bankSelect)
      banks := ← rowOfJson? 8 (← banks)
      mirroring := ← mirroringOfJson? name? (← mirroring)
      workRamEnabled := ← Json.bool? (← enabled)
      workRamProtected := ← Json.bool? (← protect)
      irqLatch := ← Json.uint8? (← latch)
      irqCounter := ← Json.uint8? (← counter)
      irqReload := ← Json.bool? (← reload)
      irqEnabled := ← Json.bool? (← irqEnabled)
      irqPending := ← Json.bool? (← irqPending)
      lastA12 := ← Json.bool? (← lastA12)
      a12LowReads := ← Json.uint8? (← lowReads) }
  | _ => none

/-- The registers of MMC2 and MMC4. -/
def mmc2ToJson (r : Mmc2.Registers) : Json :=
  .record [
    ("prg_bank", .nat r.prgBank.toNat),
    ("chr_fd_0000", .nat r.lowerFd.toNat),
    ("chr_fe_0000", .nat r.lowerFe.toNat),
    ("chr_fd_1000", .nat r.upperFd.toNat),
    ("chr_fe_1000", .nat r.upperFe.toNat),
    ("latch0_is_fe", .bool r.lowerIsFe),
    ("latch1_is_fe", .bool r.upperIsFe),
    ("mirroring", mirroringToJson r.mirroring)]

def mmc2Fields : List String :=
  ["prg_bank", "chr_fd_0000", "chr_fe_0000", "chr_fd_1000", "chr_fe_1000", "latch0_is_fe",
    "latch1_is_fe", "mirroring"]

def mmc2OfJson? (name? : Json → Option String) (j : Json) : Option Mmc2.Registers := do
  match ← Json.record? mmc2Fields false j with
  | [prgBank, lowerFd, lowerFe, upperFd, upperFe, lowerIsFe, upperIsFe, mirroring] =>
    return {
      prgBank := ← Json.uint8? (← prgBank)
      lowerFd := ← Json.uint8? (← lowerFd)
      lowerFe := ← Json.uint8? (← lowerFe)
      upperFd := ← Json.uint8? (← upperFd)
      upperFe := ← Json.uint8? (← upperFe)
      lowerIsFe := ← Json.bool? (← lowerIsFe)
      upperIsFe := ← Json.bool? (← upperIsFe)
      mirroring := ← mirroringOfJson? name? (← mirroring) }
  | _ => none

/-- The register of the boards that switch the whole ROM window. -/
def wideToJson (r : Wide.Registers) : Json :=
  .record [
    ("prg_bank", .nat r.prgBank.toNat),
    ("chr_bank", .nat r.chrBank.toNat),
    ("mirroring", mirroringToJson r.mirroring)]

def wideOfJson? (name? : Json → Option String) (j : Json) : Option Wide.Registers := do
  match ← Json.record? ["prg_bank", "chr_bank", "mirroring"] false j with
  | [prgBank, chrBank, mirroring] =>
    return {
      prgBank := ← Json.uint8? (← prgBank)
      chrBank := ← Json.uint8? (← chrBank)
      mirroring := ← mirroringOfJson? name? (← mirroring) }
  | _ => none

/-- The registers of the FFE board. -/
def ffeToJson (r : Ffe) : Json :=
  .record [
    ("prg_banks", rowToJson r.prgBanks),
    ("chr_banks", rowToJson r.chrBanks),
    ("mirroring", mirroringToJson r.mirroring),
    ("irq_counter", .nat r.irqCounter.toNat),
    ("irq_enabled", .bool r.irqEnabled),
    ("irq_pending", .bool r.irqPending)]

def ffeFields : List String :=
  ["prg_banks", "chr_banks", "mirroring", "irq_counter", "irq_enabled", "irq_pending"]

def ffeOfJson? (name? : Json → Option String) (j : Json) : Option Ffe := do
  match ← Json.record? ffeFields false j with
  | [prgBanks, chrBanks, mirroring, counter, enabled, pending] =>
    return {
      prgBanks := ← rowOfJson? 4 (← prgBanks)
      chrBanks := ← rowOfJson? 8 (← chrBanks)
      mirroring := ← mirroringOfJson? name? (← mirroring)
      irqCounter := ← Json.uint16? (← counter)
      irqEnabled := ← Json.bool? (← enabled)
      irqPending := ← Json.bool? (← pending) }
  | _ => none

/-! ## Tagged registers -/

/-- The contents of registers, apart from their kind; the board without registers has none. -/
def valuesToJson? : Registers → Option Json
  | .fixed => none
  | .discrete r => some (discreteToJson r)
  | .mmc1 r => some (mmc1ToJson r)
  | .mmc3 r => some (mmc3ToJson r)
  | .mmc2 r => some (mmc2ToJson r)
  | .wide r => some (wideToJson r)
  | .ffe r => some (ffeToJson r)

/-- Registers as a JSON record of their kind and their contents. -/
def registersToJson (r : Registers) : Json :=
  .record (("kind", .str r.kind) :: ((valuesToJson? r).map fun v => ("values", v)).toList)

/-- How deep the contents of registers may be when they come before the kind: a text nests 127
deep, and the records of the snapshot, the cartridge and the registers are around them. -/
def contentsDepth : Nat := 127 - 3

/-- The registers of a kind with the given contents; `name?` reads the names in them. -/
def registersOfKind? (kind : String) (contents : Option Json) (name? : Json → Option String) :
    Option Registers := do
  match kind with
  | "fixed" =>
    match contents with
    | none => some .fixed
    | some .null => some .fixed
    | some _ => none
  | "discrete" => return .discrete (← discreteOfJson? (← contents))
  | "shift_register" => return .mmc1 (← mmc1OfJson? (← contents))
  | "multi_bank_irq" => return .mmc3 (← mmc3OfJson? name? (← contents))
  | "latch_chr" => return .mmc2 (← mmc2OfJson? name? (← contents))
  | "single_register" => return .wide (← wideOfJson? name? (← contents))
  | "counter_irq" => return .ffe (← ffeOfJson? name? (← contents))
  | _ => none

/-- The registers in a JSON record. -/
def registersOfJson? (j : Json) : Option Registers := do
  let record ← Json.tagged? "kind" "values" contentsDepth j
  registersOfKind? record.tag record.contents
    (if record.setAside then Json.caseSetAside? else Json.case?)

/-! ## Cartridges -/

/-- The state of a cartridge as a JSON record. -/
def cartridgeToJson (s : Cartridge.State) : Json :=
  .record [
    ("registers", registersToJson s.registers),
    ("prg_ram", bytesToJson s.workRam),
    ("chr_ram", bytesToJson s.chrRam)]

/-- The state of a cartridge in a JSON record. -/
def cartridgeOfJson? (j : Json) : Option Cartridge.State := do
  match ← Json.record? ["registers", "prg_ram", "chr_ram"] false j with
  | [registers, workRam, chrRam] =>
    return {
      registers := ← registersOfJson? (← registers)
      workRam := ← bytesOfJson? (← workRam)
      chrRam := ← bytesOfJson? (← chrRam) }
  | _ => none

end Famicom.Snapshot
