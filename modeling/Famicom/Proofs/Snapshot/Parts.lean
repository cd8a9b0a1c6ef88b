import Famicom.Proofs.Json.Records
import Famicom.Proofs.Json.Written
import Famicom.Proofs.Text.Base64
import Famicom.Snapshot.Basic

/-!
# The parts of a snapshot come back from their text

`Keeps encode decode a` says that the text of `encode a` denotes `encode a` again, and that `decode`
takes `a` from it.  This holds of every part of a snapshot but of the audio unit as a whole, which
contains a real number.

* `keeps_cpu`, `keeps_pulse`, `keeps_triangle`, `keeps_noise`, `keeps_sequencer` — processor and
  channels, halted or running, in range or not.
* `keeps_registers`, `keeps_cartridge` — registers of every kind, memory of every size.
-/

namespace Famicom.Snapshot

open Json Sound Board

/-- A value is read back from the text that it is written as. -/
structure Keeps {α : Type} (encode : α → Json) (decode : Json → Option α) (a : α) : Prop where
  reads : ReadsAs (encode a) (encode a)
  decodes : decode (encode a) = some a

/-- What is kept can be read in the middle of reading something else. -/
theorem Keeps.bind {α β : Type} {encode : α → Json} {decode : Json → Option α} {a : α}
    (h : Keeps encode decode a) (f : α → Option β) : (decode (encode a) >>= f) = f a :=
  bind_of_eq_some h.decodes f

/-! ## The processor -/

theorem keeps_halt (h : Halt) : Keeps haltToJson haltOfJson? h where
  reads := readsAs_record_self (by simp)
  decodes := by
    rw [haltOfJson?, haltToJson, record?_record]
    · simp only [List.map_cons, List.map_nil, ↓some_bind, ↓uint8?_bind, ↓uint16?_bind]
      rfl
    · rfl
    · decide

/-- An optional part is null or the part. -/
theorem readsAs_option {α : Type} {encode : α → Json} (o : Option α)
    (h : ∀ a, ReadsAs (encode a) (encode a)) :
    ReadsAs (option encode o) (option encode o) := by
  cases o with
  | none => exact readsAs_null
  | some a => exact h a

theorem keeps_cpu (c : Cpu) : Keeps cpuToJson cpuOfJson? c where
  reads := readsAs_record_self (by simp [readsAs_option c.halt fun h => (keeps_halt h).reads])
  decodes := by
    -- A running processor keeps null, which no jam is kept as.
    have hhalt : option? haltOfJson? (option haltToJson c.halt) = some c.halt :=
      option?_option (fun h => (keeps_halt h).decodes) (fun _ heq => nomatch heq) c.halt
    rw [cpuOfJson?, cpuToJson, record?_record]
    · simp only [List.map_cons, List.map_nil, ↓some_bind, ↓uint8?_bind, ↓uint16?_bind,
        ↓uint64?_bind, ↓Option.getD_some, ↓bind_of_eq_some hhalt]
      rfl
    · rfl
    · decide

/-! ## The channels -/

theorem keeps_envelope (e : Envelope) : Keeps envelopeToJson envelopeOfJson? e where
  reads := readsAs_record_self (by simp)
  decodes := by
    rw [envelopeOfJson?, envelopeToJson, record?_record]
    · simp only [List.map_cons, List.map_nil, ↓some_bind, ↓uint8?_bind, ↓bool?_bind]
      rfl
    · rfl
    · decide

theorem keeps_pulse (p : Pulse) : Keeps pulseToJson pulseOfJson? p where
  reads := readsAs_record_self (by simp [(keeps_envelope p.envelope).reads])
  decodes := by
    rw [pulseOfJson?, pulseToJson, record?_record]
    · simp only [List.map_cons, List.map_nil, ↓some_bind, ↓uint8?_bind, ↓uint16?_bind, ↓bool?_bind,
        ↓(keeps_envelope p.envelope).bind]
      rfl
    · rfl
    · decide

theorem keeps_triangle (t : Triangle) : Keeps triangleToJson triangleOfJson? t where
  reads := readsAs_record_self (by simp)
  decodes := by
    rw [triangleOfJson?, triangleToJson, record?_record]
    · simp only [List.map_cons, List.map_nil, ↓some_bind, ↓uint8?_bind, ↓uint16?_bind, ↓bool?_bind]
      rfl
    · rfl
    · decide

theorem keeps_noise (n : Noise) : Keeps noiseToJson noiseOfJson? n where
  reads := readsAs_record_self (by simp [(keeps_envelope n.envelope).reads])
  decodes := by
    rw [noiseOfJson?, noiseToJson, record?_record]
    · simp only [List.map_cons, List.map_nil, ↓some_bind, ↓uint8?_bind, ↓uint16?_bind, ↓bool?_bind,
        ↓(keeps_envelope n.envelope).bind]
      rfl
    · rfl
    · decide

theorem keeps_sequencer (s : Sequencer) : Keeps sequencerToJson sequencerOfJson? s where
  reads := readsAs_record_self (by simp)
  decodes := by
    rw [sequencerOfJson?, sequencerToJson, record?_record]
    · simp only [List.map_cons, List.map_nil, ↓some_bind, ↓uint8?_bind, ↓bool?_bind]
      rfl
    · rfl
    · decide

theorem keeps_mixing (m : Mixing) : Keeps mixingToJson mixingOfJson? m where
  reads := readsAs_str _
  decodes := by cases m <;> rfl

/-! ## Parts of registers -/

theorem keeps_bytes (bytes : Array UInt8) : Keeps bytesToJson bytesOfJson? bytes where
  reads := readsAs_str _
  decodes := Base64.decode?_encode bytes.toList

theorem keeps_mirroring (m : Mirroring) : Keeps mirroringToJson (mirroringOfJson? case?) m where
  reads := readsAs_str _
  decodes := Mirroring.ofName?_name m

/-- A row of known length is read back whole. -/
theorem keeps_row {n : Nat} (v : Vector UInt8 n) : Keeps rowToJson (rowOfJson? n) v where
  reads := readsAs_array_self (by simp)
  decodes := by
    have hbytes (bytes : List UInt8) :
        (bytes.map fun b => Json.nat b.toNat).mapM uint8? = some bytes := by
      induction bytes with
      | nil => rfl
      | cons b bytes ih => simp [List.mapM_cons, ih]
    have hrow : v.toList.toArray = v.toArray := rfl
    simp [rowOfJson?, rowToJson, items?, hbytes, hrow]

/-! ## Registers -/

theorem keeps_discrete (r : Discrete.Registers) : Keeps discreteToJson discreteOfJson? r where
  reads := readsAs_record_self (by simp)
  decodes := by
    rw [discreteOfJson?, discreteToJson, record?_record]
    · simp only [List.map_cons, List.map_nil, ↓some_bind, ↓uint8?_bind]
      rfl
    · rfl
    · decide

theorem keeps_mmc1 (r : Mmc1) : Keeps mmc1ToJson mmc1OfJson? r where
  reads := readsAs_record_self (by simp)
  decodes := by
    rw [mmc1OfJson?, mmc1ToJson, record?_record]
    · simp only [List.map_cons, List.map_nil, ↓some_bind, ↓uint8?_bind]
      rfl
    · rfl
    · decide

theorem keeps_mmc3 (r : Mmc3.Registers) : Keeps mmc3ToJson (mmc3OfJson? case?) r where
  reads := readsAs_record_self (by
    simp [(keeps_row r.banks).reads, (keeps_mirroring r.mirroring).reads])
  decodes := by
    rw [mmc3OfJson?, mmc3ToJson, record?_record]
    · simp only [List.map_cons, List.map_nil, ↓some_bind, ↓uint8?_bind, ↓bool?_bind,
        ↓(keeps_row r.banks).bind, ↓(keeps_mirroring r.mirroring).bind]
      rfl
    · rfl
    · decide

theorem keeps_mmc2 (r : Mmc2.Registers) : Keeps mmc2ToJson (mmc2OfJson? case?) r where
  reads := readsAs_record_self (by simp [(keeps_mirroring r.mirroring).reads])
  decodes := by
    rw [mmc2OfJson?, mmc2ToJson, record?_record]
    · simp only [List.map_cons, List.map_nil, ↓some_bind, ↓uint8?_bind, ↓bool?_bind,
        ↓(keeps_mirroring r.mirroring).bind]
      rfl
    · rfl
    · decide

theorem keeps_wide (r : Wide.Registers) : Keeps wideToJson (wideOfJson? case?) r where
  reads := readsAs_record_self (by simp [(keeps_mirroring r.mirroring).reads])
  decodes := by
    rw [wideOfJson?, wideToJson, record?_record]
    · simp only [List.map_cons, List.map_nil, ↓some_bind, ↓uint8?_bind,
        ↓(keeps_mirroring r.mirroring).bind]
      rfl
    · rfl
    · decide

theorem keeps_ffe (r : Ffe) : Keeps ffeToJson (ffeOfJson? case?) r where
  reads := readsAs_record_self (by
    simp [(keeps_row r.prgBanks).reads, (keeps_row r.chrBanks).reads,
      (keeps_mirroring r.mirroring).reads])
  decodes := by
    rw [ffeOfJson?, ffeToJson, record?_record]
    · simp only [List.map_cons, List.map_nil, ↓some_bind, ↓uint16?_bind, ↓bool?_bind,
        ↓(keeps_row r.prgBanks).bind, ↓(keeps_row r.chrBanks).bind,
        ↓(keeps_mirroring r.mirroring).bind]
      rfl
    · rfl
    · decide

/-- Registers are read back, of whatever kind they are; the board without registers writes its kind
only. -/
theorem keeps_registers (r : Registers) : Keeps registersToJson registersOfJson? r where
  reads := by
    refine readsAs_record_self ?_
    cases r with
    | fixed => simp [valuesToJson?]
    | discrete r => simp [valuesToJson?, (keeps_discrete r).reads]
    | mmc1 r => simp [valuesToJson?, (keeps_mmc1 r).reads]
    | mmc3 r => simp [valuesToJson?, (keeps_mmc3 r).reads]
    | mmc2 r => simp [valuesToJson?, (keeps_mmc2 r).reads]
    | wide r => simp [valuesToJson?, (keeps_wide r).reads]
    | ffe r => simp [valuesToJson?, (keeps_ffe r).reads]
  decodes := by
    have htagged := tagged?_record (show "kind" ≠ "values" by decide) contentsDepth r.kind
      (valuesToJson? r)
    rw [registersOfJson?, registersToJson, htagged]
    change registersOfKind? r.kind (valuesToJson? r) case? = some r
    -- the kind is read first and says which record the values are
    cases r with
    | fixed => rfl
    | discrete r => exact (keeps_discrete r).bind fun r => some (Registers.discrete r)
    | mmc1 r => exact (keeps_mmc1 r).bind fun r => some (Registers.mmc1 r)
    | mmc3 r => exact (keeps_mmc3 r).bind fun r => some (Registers.mmc3 r)
    | mmc2 r => exact (keeps_mmc2 r).bind fun r => some (Registers.mmc2 r)
    | wide r => exact (keeps_wide r).bind fun r => some (Registers.wide r)
    | ffe r => exact (keeps_ffe r).bind fun r => some (Registers.ffe r)

/-- The state of a cartridge is read back, whatever the sizes of its memories. -/
theorem keeps_cartridge (s : Cartridge.State) : Keeps cartridgeToJson cartridgeOfJson? s where
  reads := readsAs_record_self (by
    simp [(keeps_registers s.registers).reads, (keeps_bytes s.workRam).reads,
      (keeps_bytes s.chrRam).reads])
  decodes := by
    rw [cartridgeOfJson?, cartridgeToJson, record?_record]
    · simp only [List.map_cons, List.map_nil, ↓some_bind, ↓(keeps_registers s.registers).bind,
        ↓(keeps_bytes s.workRam).bind, ↓(keeps_bytes s.chrRam).bind]
      rfl
    · rfl
    · decide

end Famicom.Snapshot
