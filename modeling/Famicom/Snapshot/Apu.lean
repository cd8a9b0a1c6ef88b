import Famicom.Json.Decode
import Famicom.Sound.Apu

/-!
# Saved audio units

The state of the audio unit as a JSON record.  Remembered samples are not saved; an audio unit that
is read back remembers none.
-/

namespace Famicom.Snapshot

open Sound

/-! ## Envelopes -/

/-- An envelope as a JSON record. -/
def envelopeToJson (e : Envelope) : Json :=
  .record [
    ("constant_volume", .bool e.constantVolume),
    ("volume", .nat e.volume.toNat),
    ("start", .bool e.start),
    ("divider", .nat e.divider.toNat),
    ("decay", .nat e.decay.toNat)]

/-- The names of the fields of an envelope. -/
def envelopeFields : List String := ["constant_volume", "volume", "start", "divider", "decay"]

/-- The envelope in a JSON record. -/
def envelopeOfJson? (j : Json) : Option Envelope := do
  match ← Json.record? envelopeFields false j with
  | [constantVolume, volume, start, divider, decay] =>
    return {
      constantVolume := ← Json.bool? (← constantVolume)
      volume := ← Json.uint8? (← volume)
      start := ← Json.bool? (← start)
      divider := ← Json.uint8? (← divider)
      decay := ← Json.uint8? (← decay) }
  | _ => none

/-! ## Pulse channels -/

/-- A pulse channel as a JSON record. -/
def pulseToJson (p : Pulse) : Json :=
  .record [
    ("enabled", .bool p.length.enabled),
    ("ones_complement_sweep", .bool p.sweep.onesComplement),
    ("duty", .nat p.duty.toNat),
    ("duty_step", .nat p.dutyStep.toNat),
    ("timer_period", .nat p.timer.period.toNat),
    ("timer_counter", .nat p.timer.counter.toNat),
    ("length_counter", .nat p.length.count.toNat),
    ("length_halt", .bool p.length.halt),
    ("envelope", envelopeToJson p.envelope),
    ("sweep_enabled", .bool p.sweep.enabled),
    ("sweep_period", .nat p.sweep.period.toNat),
    ("sweep_negate", .bool p.sweep.negate),
    ("sweep_shift", .nat p.sweep.shift.toNat),
    ("sweep_reload", .bool p.sweep.reload),
    ("sweep_divider", .nat p.sweep.divider.toNat)]

/-- The names of the fields of a pulse channel. -/
def pulseFields : List String :=
  ["enabled", "ones_complement_sweep", "duty", "duty_step", "timer_period", "timer_counter",
    "length_counter", "length_halt", "envelope", "sweep_enabled", "sweep_period", "sweep_negate",
    "sweep_shift", "sweep_reload", "sweep_divider"]

/-- The pulse channel in a JSON record. -/
def pulseOfJson? (j : Json) : Option Pulse := do
  match ← Json.record? pulseFields false j with
  | [enabled, onesComplement, duty, dutyStep, period, counter, count, halt, envelope, sweepEnabled,
      sweepPeriod, negate, shift, reload, divider] =>
    return {
      length := {
        enabled := ← Json.bool? (← enabled)
        halt := ← Json.bool? (← halt)
        count := ← Json.uint8? (← count) }
      envelope := ← envelopeOfJson? (← envelope)
      timer := { period := ← Json.uint16? (← period), counter := ← Json.uint16? (← counter) }
      sweep := {
        onesComplement := ← Json.bool? (← onesComplement)
        enabled := ← Json.bool? (← sweepEnabled)
        period := ← Json.uint8? (← sweepPeriod)
        negate := ← Json.bool? (← negate)
        shift := ← Json.uint8? (← shift)
        reload := ← Json.bool? (← reload)
        divider := ← Json.uint8? (← divider) }
      duty := ← Json.uint8? (← duty)
      dutyStep := ← Json.uint8? (← dutyStep) }
  | _ => none

/-! ## The triangle channel -/

/-- A triangle channel as a JSON record. -/
def triangleToJson (t : Triangle) : Json :=
  .record [
    ("enabled", .bool t.length.enabled),
    ("control_flag", .bool t.length.halt),
    ("linear_reload_value", .nat t.linear.reloadValue.toNat),
    ("linear_counter", .nat t.linear.count.toNat),
    ("linear_reload_flag", .bool t.linear.reload),
    ("timer_period", .nat t.timer.period.toNat),
    ("timer_counter", .nat t.timer.counter.toNat),
    ("length_counter", .nat t.length.count.toNat),
    ("seq_step", .nat t.step.toNat)]

/-- The names of the fields of a triangle channel. -/
def triangleFields : List String :=
  ["enabled", "control_flag", "linear_reload_value", "linear_counter", "linear_reload_flag",
    "timer_period", "timer_counter", "length_counter", "seq_step"]

/-- The triangle channel in a JSON record. -/
def triangleOfJson? (j : Json) : Option Triangle := do
  match ← Json.record? triangleFields false j with
  | [enabled, control, reloadValue, linear, reload, period, counter, count, step] =>
    return {
      length := {
        enabled := ← Json.bool? (← enabled)
        halt := ← Json.bool? (← control)
        count := ← Json.uint8? (← count) }
      linear := {
        reloadValue := ← Json.uint8? (← reloadValue)
        count := ← Json.uint8? (← linear)
        reload := ← Json.bool? (← reload) }
      timer := { period := ← Json.uint16? (← period), counter := ← Json.uint16? (← counter) }
      step := ← Json.uint8? (← step) }
  | _ => none

/-! ## The noise channel -/

/-- A noise channel as a JSON record. -/
def noiseToJson (n : Noise) : Json :=
  .record [
    ("enabled", .bool n.length.enabled),
    ("length_halt", .bool n.length.halt),
    ("envelope", envelopeToJson n.envelope),
    ("short_mode", .bool n.shortMode),
    ("timer_period", .nat n.timer.period.toNat),
    ("timer_counter", .nat n.timer.counter.toNat),
    ("shift_register", .nat n.shift.toNat),
    ("length_counter", .nat n.length.count.toNat)]

/-- The names of the fields of a noise channel. -/
def noiseFields : List String :=
  ["enabled", "length_halt", "envelope", "short_mode", "timer_period", "timer_counter",
    "shift_register", "length_counter"]

/-- The noise channel in a JSON record. -/
def noiseOfJson? (j : Json) : Option Noise := do
  match ← Json.record? noiseFields false j with
  | [enabled, halt, envelope, shortMode, period, counter, shift, count] =>
    return {
      length := {
        enabled := ← Json.bool? (← enabled)
        halt := ← Json.bool? (← halt)
        count := ← Json.uint8? (← count) }
      envelope := ← envelopeOfJson? (← envelope)
      timer := { period := ← Json.uint16? (← period), counter := ← Json.uint16? (← counter) }
      shortMode := ← Json.bool? (← shortMode)
      shift := ← Json.uint16? (← shift) }
  | _ => none

/-! ## The sequencer -/

/-- A sequencer as a JSON record. -/
def sequencerToJson (s : Sequencer) : Json :=
  .record [
    ("five_step", .bool s.fiveStep),
    ("step", .nat s.step.toNat),
    ("irq_inhibit", .bool s.irqInhibit),
    ("irq_flag", .bool s.irqFlag)]

/-- The names of the fields of a sequencer. -/
def sequencerFields : List String := ["five_step", "step", "irq_inhibit", "irq_flag"]

/-- The sequencer in a JSON record. -/
def sequencerOfJson? (j : Json) : Option Sequencer := do
  match ← Json.record? sequencerFields false j with
  | [fiveStep, step, irqInhibit, irqFlag] =>
    return {
      fiveStep := ← Json.bool? (← fiveStep)
      step := ← Json.uint8? (← step)
      irqInhibit := ← Json.bool? (← irqInhibit)
      irqFlag := ← Json.bool? (← irqFlag) }
  | _ => none

/-! ## The whole unit -/

/-- The name of a mixing law. -/
def mixingToJson (m : Mixing) : Json :=
  .str (match m with
    | .nonlinear => "nonlinear"
    | .linear => "linear")

/-- The mixing law that a value names. -/
def mixingOfJson? (j : Json) : Option Mixing := do
  match ← j.case? with
  | "nonlinear" => some .nonlinear
  | "linear" => some .linear
  | _ => none

/-- An audio unit as a JSON record. -/
def apuToJson (a : Apu) : Json :=
  .record [
    ("pulse1", pulseToJson a.pulse1),
    ("pulse2", pulseToJson a.pulse2),
    ("triangle", triangleToJson a.triangle),
    ("noise", noiseToJson a.noise),
    ("sequencer", sequencerToJson a.sequencer),
    ("cpu_cycle", .nat a.cpuCycle.toNat),
    ("sample_rate", .nat a.sampleRate.toNat),
    ("cycle_debt", .real a.cycleDebt),
    ("mixing", mixingToJson a.mixing)]

/-- The names of the fields of an audio unit. -/
def apuFields : List String :=
  ["pulse1", "pulse2", "triangle", "noise", "sequencer", "cpu_cycle", "sample_rate", "cycle_debt",
    "mixing"]

/-- The audio unit in a JSON record. -/
def apuOfJson? (j : Json) : Option Apu := do
  match ← Json.record? apuFields false j with
  | [pulse1, pulse2, triangle, noise, sequencer, cpuCycle, sampleRate, cycleDebt, mixing] =>
    return {
      pulse1 := ← pulseOfJson? (← pulse1)
      pulse2 := ← pulseOfJson? (← pulse2)
      triangle := ← triangleOfJson? (← triangle)
      noise := ← noiseOfJson? (← noise)
      sequencer := ← sequencerOfJson? (← sequencer)
      cpuCycle := ← Json.uint64? (← cpuCycle)
      sampleRate := ← Json.uint32? (← sampleRate)
      cycleDebt := ← Json.real? (← cycleDebt)
      mixing := ← mixingOfJson? (← mixing)
      memo := .empty }
  | _ => none

end Famicom.Snapshot
