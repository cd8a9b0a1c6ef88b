import Famicom.Proofs.Snapshot.Parts

/-!
# Snapshots come back from their text

A snapshot of the current version is read back from its text: version, fingerprint, processor, RAM,
cartridge and every field of the audio unit that is a number of bits, a truth value or a name.
Remembered samples are not written.  The fraction of a clock that the audio unit owes is a real
number; it becomes what its own numeral is read as.

* `ofText_toText` — the snapshot that the text of a snapshot holds.
-/

namespace Famicom.Snapshot

open Json Sound

/-- A field is read back if its value is. -/
theorem fieldReadsAs {name : String} {j k : Json} (h : ReadsAs j k) :
    FieldReadsAs (name, j) (name, k) := ⟨rfl, h⟩

/-! ## The audio unit -/

/-- The audio unit with the debt that was read, and without remembered samples. -/
def withDebt (a : Apu) (debt : Float) : Apu := { a with cycleDebt := debt, memo := .empty }

/-- The record of an audio unit with the given value for its debt. -/
def apuRecord (a : Apu) (debt : Json) : Json :=
  .record [
    ("pulse1", pulseToJson a.pulse1),
    ("pulse2", pulseToJson a.pulse2),
    ("triangle", triangleToJson a.triangle),
    ("noise", noiseToJson a.noise),
    ("sequencer", sequencerToJson a.sequencer),
    ("cpu_cycle", .nat a.cpuCycle.toNat),
    ("sample_rate", .nat a.sampleRate.toNat),
    ("cycle_debt", debt),
    ("mixing", mixingToJson a.mixing)]

/-- All of an audio unit but its debt is read back. -/
theorem readsAs_apu (a : Apu) {k : Json} (h : ReadsAs (.real a.cycleDebt) k) :
    ReadsAs (apuToJson a) (apuRecord a k) :=
  readsAs_record <|
    .cons (fieldReadsAs (keeps_pulse a.pulse1).reads) <|
    .cons (fieldReadsAs (keeps_pulse a.pulse2).reads) <|
    .cons (fieldReadsAs (keeps_triangle a.triangle).reads) <|
    .cons (fieldReadsAs (keeps_noise a.noise).reads) <|
    .cons (fieldReadsAs (keeps_sequencer a.sequencer).reads) <|
    .cons (fieldReadsAs (readsAs_uint64 _)) <|
    .cons (fieldReadsAs (readsAs_uint32 _)) <|
    .cons (fieldReadsAs h) <|
    .cons (fieldReadsAs (keeps_mixing a.mixing).reads) .nil

theorem apuOfJson?_apuRecord (a : Apu) {k : Json} {debt : Float} (h : k.real? = some debt) :
    apuOfJson? (apuRecord a k) = some (withDebt a debt) := by
  rw [apuOfJson?, apuRecord, record?_record]
  · simp only [List.map_cons, List.map_nil, ↓some_bind, ↓(keeps_pulse a.pulse1).bind,
      ↓(keeps_pulse a.pulse2).bind, ↓(keeps_triangle a.triangle).bind, ↓(keeps_noise a.noise).bind,
      ↓(keeps_sequencer a.sequencer).bind, ↓uint64?_bind, ↓uint32?_bind, ↓bind_of_eq_some h,
      ↓(keeps_mixing a.mixing).bind]
    rfl
  · rfl
  · decide

/-! ## The whole snapshot -/

/-- The record of a snapshot with the given value for its audio unit. -/
def snapshotRecord (s : Snapshot) (apu : Json) : Json :=
  .record [
    ("version", .nat s.version.toNat),
    ("rom_sha1", .str s.fingerprint),
    ("cpu", cpuToJson s.cpu),
    ("ram", bytesToJson s.ram),
    ("mapper", cartridgeToJson s.cartridge),
    ("apu", apu)]

/-- All of a snapshot but its audio unit is read back. -/
theorem readsAs_snapshot (s : Snapshot) {k : Json} (h : ReadsAs (apuToJson s.apu) k) :
    ReadsAs s.toJson (snapshotRecord s k) :=
  readsAs_record <|
    .cons (fieldReadsAs (readsAs_uint32 _)) <|
    .cons (fieldReadsAs (readsAs_str _)) <|
    .cons (fieldReadsAs (keeps_cpu s.cpu).reads) <|
    .cons (fieldReadsAs (keeps_bytes s.ram).reads) <|
    .cons (fieldReadsAs (keeps_cartridge s.cartridge).reads) <|
    .cons (fieldReadsAs h) .nil

theorem ofJson?_snapshotRecord (s : Snapshot) {k : Json} {apu : Apu}
    (h : apuOfJson? k = some apu) :
    ofJson? (snapshotRecord s k) = some { s with apu } := by
  rw [ofJson?, snapshotRecord, record?_record]
  · simp only [List.map_cons, List.map_nil, ↓some_bind, ↓uint32?_bind, ↓text?_bind,
      ↓(keeps_cpu s.cpu).bind, ↓(keeps_bytes s.ram).bind, ↓(keeps_cartridge s.cartridge).bind,
      ↓bind_of_eq_some h]
    rfl
  · rfl
  · decide

/-- **Round trip.**  A snapshot of the current version is read back from its text, whatever
registers, processor and memory it holds.  Only the debt of the audio unit is what its numeral is
read as, and remembered samples are forgotten.  For that the debt has to be finite: another has no
numeral, and the null in its place is not read as a number. -/
theorem ofText_toText (s : Snapshot) {debt : Float} (hversion : s.version = currentVersion)
    (hdebt : (Json.ofText? (Json.real s.apu.cycleDebt).toText >>= Json.real?) = some debt) :
    ofText s.toText = .ok { s with apu := { s.apu with cycleDebt := debt, memo := .empty } } ∧
      ∀ bytes : List UInt8, Base64.decode? (Base64.encode bytes) = some bytes.toArray := by
  refine ⟨?_, Base64.decode?_encode⟩
  obtain ⟨k, hreads, hreal⟩ := Option.bind_eq_some_iff.mp hdebt
  have hsnapshot : ofJson? (snapshotRecord s (apuRecord s.apu k)) =
      some { s with apu := withDebt s.apu debt } :=
    ofJson?_snapshotRecord s (apuOfJson?_apuRecord s.apu hreal)
  have htext : Json.ofText? s.toText = some (snapshotRecord s (apuRecord s.apu k)) :=
    readsAs_snapshot s (readsAs_apu s.apu hreads)
  rw [ofText, htext, Option.bind_eq_bind, Option.bind_some, hsnapshot]
  exact if_pos hversion

/-- A processor jammed on its first opcode, with an odd number of bytes in its memories. -/
def jammed : Snapshot where
  version := 1
  fingerprint := "R\n\"=="
  cpu := { Cpu.powerOn with halt := some ⟨0x02, 0x8000⟩, totalCycles := 7 }
  ram := #[0xFF, 0x00, 0x80, 0x7F]
  cartridge := ⟨.ffe ⟨#v[0, 1, 2, 3], #v[0, 0, 0, 0, 0, 0, 0, 255], .vertical, 0xFFFF, true, true⟩,
    #[0xEA], #[]⟩
  apu := { Apu.powerOn with cycleDebt := 0.5 }

/-- Half a clock is owed, and half a clock is read. -/
theorem ofText_toText_jammed :
    jammed.version = currentVersion ∧
      (Json.ofText? (Json.real jammed.apu.cycleDebt).toText >>= Json.real?) = some 0.5 ∧
      ofText jammed.toText = .ok jammed := by
  have hdebt :
      (Json.ofText? (Json.real jammed.apu.cycleDebt).toText >>= Json.real?) = some 0.5 := by
    decide +kernel
  exact ⟨rfl, hdebt, (ofText_toText jammed rfl hdebt).1⟩

end Famicom.Snapshot
