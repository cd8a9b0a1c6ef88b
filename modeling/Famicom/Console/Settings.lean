import Famicom.Json.Reader
import Famicom.Snapshot.Apu

/-!
# Settings

What the host can choose: the sample rate and mixing law, and how a frame is divided into sequencer
steps and scanlines.  Settings are read from JSON, where missing ones keep their defaults.
-/

namespace Famicom

/-- Timing and audio settings. -/
structure Settings where
  sampleRate : UInt32
  mixing : Sound.Mixing
  cyclesPerFrame : UInt32
  sequencerStepsPerFrame : UInt32
  scanlinesPerFrame : UInt32
  visibleScanlines : UInt32
  /-- Clock the scanline counter of the board from the cycles that pass. -/
  synthesizeScanlines : Bool
  /-- The most cycles that one routine of a sound program may take. -/
  routineCycleBudget : UInt64
  deriving DecidableEq, Repr

namespace Settings

/-- The timing of an NTSC console. -/
def standard : Settings where
  sampleRate := Sound.Apu.defaultSampleRate
  mixing := .nonlinear
  cyclesPerFrame := 29781
  sequencerStepsPerFrame := 4
  scanlinesPerFrame := 262
  visibleScanlines := 240
  synthesizeScanlines := true
  routineCycleBudget := 1000000

instance : Inhabited Settings := ⟨standard⟩

/-- Why settings are refused. -/
inductive Error
  | malformed
  | noCycles
  | badSteps (steps : UInt32)
  | badScanlines (lines cycles : UInt32)
  | badVisible (visible lines : UInt32)
  | noBudget
  deriving DecidableEq, Repr

/-- The wording of an error. -/
def Error.message : Error → String
  | malformed => "failed to parse config JSON"
  | noCycles => "cycles_per_frame must be positive"
  | badSteps steps => s!"sequencer_steps_per_frame must be between 1 and 5, got {steps}"
  | badScanlines lines cycles => s!"scanlines_per_frame {lines} does not fit in {cycles} cycles"
  | badVisible visible lines =>
    s!"visible_scanlines {visible} must be below scanlines_per_frame {lines}"
  | noBudget => "routine_cycle_budget must be positive"

/-- The first rule that the settings break, if any. -/
def fault? (s : Settings) : Option Error :=
  if s.cyclesPerFrame = 0 then some .noCycles
  else if s.sequencerStepsPerFrame < 1 ∨ 5 < s.sequencerStepsPerFrame then
    some (.badSteps s.sequencerStepsPerFrame)
  else if s.scanlinesPerFrame = 0 ∨ s.cyclesPerFrame < s.scanlinesPerFrame then
    some (.badScanlines s.scanlinesPerFrame s.cyclesPerFrame)
  else if s.scanlinesPerFrame ≤ s.visibleScanlines then
    some (.badVisible s.visibleScanlines s.scanlinesPerFrame)
  else if s.routineCycleBudget = 0 then some .noBudget
  else none

/-- The settings keep all rules. -/
def Valid (s : Settings) : Prop := s.fault? = none

instance (s : Settings) : Decidable s.Valid := inferInstanceAs (Decidable (_ = _))

/-! ## JSON -/

/-- The names of the settings in JSON. -/
def fieldNames : List String :=
  ["sample_rate", "mixing", "cycles_per_frame", "sequencer_steps_per_frame",
    "scanlines_per_frame", "visible_scanlines", "synthesize_scanlines", "routine_cycle_budget"]

/-- The settings as a JSON record. -/
def toJson (s : Settings) : Json :=
  .record [
    ("sample_rate", .nat s.sampleRate.toNat),
    ("mixing", Snapshot.mixingToJson s.mixing),
    ("cycles_per_frame", .nat s.cyclesPerFrame.toNat),
    ("sequencer_steps_per_frame", .nat s.sequencerStepsPerFrame.toNat),
    ("scanlines_per_frame", .nat s.scanlinesPerFrame.toNat),
    ("visible_scanlines", .nat s.visibleScanlines.toNat),
    ("synthesize_scanlines", .bool s.synthesizeScanlines),
    ("routine_cycle_budget", .nat s.routineCycleBudget.toNat)]

/-- A setting that may be missing. -/
def given {α : Type} (decode : Json → Option α) (standard : α) : Option Json → Option α
  | some j => decode j
  | none => some standard

/-- The settings in a JSON record, with the standard for missing ones. -/
def ofJson? (j : Json) : Option Settings := do
  match ← Json.record? fieldNames true j with
  | [rate, mixing, cycles, steps, lines, visible, synthesize, budget] =>
    return {
      sampleRate := ← given Json.uint32? standard.sampleRate rate
      mixing := ← given Snapshot.mixingOfJson? standard.mixing mixing
      cyclesPerFrame := ← given Json.uint32? standard.cyclesPerFrame cycles
      sequencerStepsPerFrame := ← given Json.uint32? standard.sequencerStepsPerFrame steps
      scanlinesPerFrame := ← given Json.uint32? standard.scanlinesPerFrame lines
      visibleScanlines := ← given Json.uint32? standard.visibleScanlines visible
      synthesizeScanlines := ← given Json.bool? standard.synthesizeScanlines synthesize
      routineCycleBudget := ← given Json.uint64? standard.routineCycleBudget budget }
  | _ => none

/-- The settings in a JSON text.  A sample rate below the lowest is raised to it. -/
def ofText (text : String) : Except Error Settings :=
  match Json.ofText? text >>= ofJson? with
  | none => throw .malformed
  | some s =>
    let s := { s with sampleRate := max s.sampleRate Sound.Apu.minSampleRate }
    match s.fault? with
    | some e => throw e
    | none => return s

end Settings

end Famicom
