import Famicom.Proofs.Sound.Acts
import Famicom.Proofs.Sound.Checked

/-!
# The audio unit cannot go wrong

A unit may have been put together from anything: a corrupt snapshot has any bytes and words in its
fields.  Once it has been confined nothing that a host or a program does to it makes an addition or
a subtraction leave its word, shifts by the width of a word or more, or looks up an entry that its
table does not have.

* `Apu.moved?_eq`, `Apu.levels?_eq` — in range, checked arithmetic gives what plain arithmetic
  gives.
* `Apu.inRange_levels` — in range, the levels have four bits.
* `Apu.confine_runs_checked` — every run from a confined unit.
-/

namespace Famicom.Sound

/-! ## Levels -/

/-- All four levels have four bits. -/
structure Levels.InRange (l : Levels) : Prop where
  pulse1 : l.pulse1 ≤ 15
  pulse2 : l.pulse2 ≤ 15
  triangle : l.triangle ≤ 15
  noise : l.noise ≤ 15

theorem Envelope.InRange.level_le {e : Envelope} (h : e.InRange) : e.level ≤ 15 := by
  rw [UInt8.le_iff_toNat_le]
  unfold level
  split
  · exact Nat.le_of_lt_succ h.volume
  · exact Nat.le_of_lt_succ h.decay

theorem Pulse.InRange.level_le {p : Pulse} (h : p.InRange) : p.level ≤ 15 := by
  unfold level
  split
  · exact h.envelope.level_le
  · decide

theorem Noise.InRange.level_le {n : Noise} (h : n.InRange) : n.level ≤ 15 := by
  unfold level
  split
  · exact h.envelope.level_le
  · decide

/-- No step of the wave is above 15. -/
theorem triangleWave_le : ∀ i : Fin 32, triangleWave[i] ≤ 15 := by decide

/-- The triangle is not confined for its level: the wave itself has no step above fifteen. -/
theorem Triangle.level_le (t : Triangle) : t.level ≤ 15 := by
  unfold level
  split
  · exact triangleWave_le ⟨t.step.toNat % 32, Nat.mod_lt _ (by decide)⟩
  · decide

namespace Apu

variable {a : Apu}

/-- So the mixer only ever sees four bits of each channel. -/
theorem inRange_levels (h : a.channels.InRange) : a.levels.InRange where
  pulse1 := h.pulse1.level_le
  pulse2 := h.pulse2.level_le
  triangle := a.triangle.level_le
  noise := h.noise.level_le

def levels? (a : Apu) : Option Levels := do
  let pulse1 ← a.pulse1.level?
  let pulse2 ← a.pulse2.level?
  let triangle ← a.triangle.level?
  some ⟨pulse1, pulse2, triangle, a.noise.level⟩

/-- All four levels are computed without leaving a table. -/
theorem levels?_eq (h : a.channels.InRange) : a.levels? = some a.levels := by
  have hpulse1 : a.pulse1.level? = _ := h.pulse1.level?_eq
  have hpulse2 : a.pulse2.level? = _ := h.pulse2.level?_eq
  have htriangle : a.triangle.level? = _ := h.triangle.level?_eq
  rw [levels?, hpulse1, hpulse2, htriangle]
  rfl

/-! ## Frame clocks in checked arithmetic -/

def clockQuarter? (a : Apu) : Option Apu := do
  let pulse1 ← a.pulse1.clockQuarter?
  let pulse2 ← a.pulse2.clockQuarter?
  let triangle ← a.triangle.clockQuarter?
  let noise ← a.noise.clockQuarter?
  some { a with pulse1, pulse2, triangle, noise }

def clockHalf? (a : Apu) : Option Apu := do
  let pulse1 ← a.pulse1.clockHalf?
  let pulse2 ← a.pulse2.clockHalf?
  let triangle ← a.triangle.clockHalf?
  let noise ← a.noise.clockHalf?
  some { a with pulse1, pulse2, triangle, noise }

def clockFrame? (a : Apu) (clocks : Beat) : Option Apu := do
  let a ← (if clocks.quarter then a.clockQuarter? else some a)
  if clocks.half then a.clockHalf? else some a

def stepSequencer? (a : Apu) : Option Apu := do
  let (clocks, sequencer) ← a.sequencer.advance?
  { a with sequencer }.clockFrame? clocks

theorem clockQuarter?_eq (a : Apu) : a.clockQuarter? = some a.clockQuarter := by
  rw [clockQuarter?, Pulse.clockQuarter?_eq, Pulse.clockQuarter?_eq, Triangle.clockQuarter?_eq,
    Noise.clockQuarter?_eq]
  rfl

theorem clockHalf?_eq (h : a.channels.InRange) : a.clockHalf? = some a.clockHalf := by
  have hpulse1 : a.pulse1.clockHalf? = _ := h.pulse1.clockHalf?_eq
  have hpulse2 : a.pulse2.clockHalf? = _ := h.pulse2.clockHalf?_eq
  rw [clockHalf?, hpulse1, hpulse2, Triangle.clockHalf?_eq, Noise.clockHalf?_eq]
  rfl

/-- Both kinds of frames, for each beat that has them. -/
theorem clockFrame?_eq (h : a.channels.InRange) (clocks : Beat) :
    a.clockFrame? clocks = some (a.clockFrame clocks) := by
  unfold clockFrame? clockFrame
  rw [clockQuarter?_eq]
  cases clocks.quarter <;> cases clocks.half
  · rfl
  · exact clockHalf?_eq h
  · rfl
  · exact clockHalf?_eq (inRange_clockQuarter h)

/-- A step of the sequencer, with the frames that it calls for. -/
theorem stepSequencer?_eq (h : a.channels.InRange) : a.stepSequencer? = some a.stepSequencer := by
  rw [stepSequencer?, Sequencer.advance?_eq]
  refine clockFrame?_eq ?_ _
  exact ⟨h.pulse1, h.pulse2, h.triangle, h.noise, Sequencer.inRange_advance a.sequencer⟩

/-! ## Registers in checked arithmetic -/

def writeFrameCounter? (a : Apu) (value : UInt8) : Option Apu :=
  let sequencer := a.sequencer.writeControl value
  { a with sequencer }.clockFrame? ⟨sequencer.fiveStep, sequencer.fiveStep⟩

def write? (a : Apu) (addr : UInt16) (value : UInt8) : Option Apu :=
  match addr with
  | 0x4000 => do
    let pulse1 ← a.pulse1.writeControl? value
    some { a with pulse1 }
  | 0x4001 => do
    let pulse1 ← a.pulse1.writeSweep? value
    some { a with pulse1 }
  | 0x4002 => some { a with pulse1 := a.pulse1.writeTimerLow value }
  | 0x4003 => do
    let pulse1 ← a.pulse1.writeTimerHigh? value
    some { a with pulse1 }
  | 0x4004 => do
    let pulse2 ← a.pulse2.writeControl? value
    some { a with pulse2 }
  | 0x4005 => do
    let pulse2 ← a.pulse2.writeSweep? value
    some { a with pulse2 }
  | 0x4006 => some { a with pulse2 := a.pulse2.writeTimerLow value }
  | 0x4007 => do
    let pulse2 ← a.pulse2.writeTimerHigh? value
    some { a with pulse2 }
  | 0x4008 => some { a with triangle := a.triangle.writeLinear value }
  | 0x400A => some { a with triangle := a.triangle.writeTimerLow value }
  | 0x400B => do
    let triangle ← a.triangle.writeTimerHigh? value
    some { a with triangle }
  | 0x400C => some { a with noise := a.noise.writeControl value }
  | 0x400E => do
    let noise ← a.noise.writePeriod? value
    some { a with noise }
  | 0x400F => do
    let noise ← a.noise.writeLength? value
    some { a with noise }
  | 0x4015 => some (a.writeStatus value)
  | 0x4017 => a.writeFrameCounter? value
  | _ => some a

theorem writeFrameCounter?_eq (h : a.channels.InRange) (value : UInt8) :
    a.writeFrameCounter? value = some (a.writeFrameCounter value) := by
  refine clockFrame?_eq ?_ _
  exact ⟨h.pulse1, h.pulse2, h.triangle, h.noise, Sequencer.inRange_writeControl a.sequencer value⟩

/-- A write to any register. -/
theorem write?_eq (h : a.channels.InRange) (addr : UInt16) (value : UInt8) :
    a.write? addr value = some (a.write addr value) := by
  unfold write? write
  simp only [Pulse.writeControl?_eq, Pulse.writeSweep?_eq, Pulse.writeTimerHigh?_eq,
    Triangle.writeTimerHigh?_eq, Noise.writePeriod?_eq, Noise.writeLength?_eq,
    writeFrameCounter?_eq h, Option.bind_eq_bind, Option.bind_some]
  split
  case h_17 => simp only [*]
  all_goals rfl

/-! ## Timers and samples in checked arithmetic -/

def clockTimers? (a : Apu) : Option Apu :=
  let cpuCycle := a.cpuCycle + 1
  if cpuCycle &&& 1 = 0 then do
    let pulse1 ← a.pulse1.clockTimer?
    let pulse2 ← a.pulse2.clockTimer?
    let noise ← a.noise.clockTimer?
    let triangle ← a.triangle.clockTimer?
    some { a with cpuCycle, pulse1, pulse2, noise, triangle }
  else do
    let triangle ← a.triangle.clockTimer?
    some { a with cpuCycle, triangle }

def runTimers? : Nat → Apu → Option Apu
  | 0, a => some a
  | n + 1, a => do
    let a ← a.clockTimers?
    runTimers? n a

def sample? (a : Apu) : Option (UInt8 × Apu) := do
  let a ← runTimers? a.accrue.1 a.accrue.2
  let levels ← a.levels?
  let (sample, memo) := a.memo.sample a.mixing levels
  some (sample, { a with memo })

def samplesOnto? (buffer : Array UInt8) : Nat → Apu → Option (Array UInt8 × Apu)
  | 0, a => some (buffer, a)
  | n + 1, a => do
    let (sample, a) ← a.sample?
    samplesOnto? (buffer.push sample) n a

theorem clockTimers?_eq (h : a.channels.InRange) : a.clockTimers? = some a.clockTimers := by
  have hpulse1 : a.pulse1.clockTimer? = _ := h.pulse1.clockTimer?_eq
  have hpulse2 : a.pulse2.clockTimer? = _ := h.pulse2.clockTimer?_eq
  have htriangle : a.triangle.clockTimer? = _ := h.triangle.clockTimer?_eq
  unfold clockTimers? clockTimers
  simp only [hpulse1, hpulse2, htriangle, Noise.clockTimer?_eq, Option.bind_eq_bind,
    Option.bind_some]
  split <;> rfl

theorem runTimers?_eq (n : Nat) (h : a.channels.InRange) :
    a.runTimers? n = some (a.runTimers n) := by
  induction n generalizing a with
  | zero => rfl
  | succ n ih =>
    rw [runTimers?, clockTimers?_eq h]
    exact ih (inRange_clockTimers h)

/-- A sample is as many timer clocks as are due, and the levels after them. -/
theorem sample?_eq (h : a.channels.InRange) : a.sample? = some a.sample := by
  unfold sample?
  rw [runTimers?_eq _ (a := a.accrue.2) h, Option.bind_eq_bind, Option.bind_some,
    levels?_eq (inRange_runTimers _ (a := a.accrue.2) h)]
  rfl

theorem samplesOnto?_eq (n : Nat) (buffer : Array UInt8) (h : a.channels.InRange) :
    a.samplesOnto? buffer n = some (a.samplesOnto buffer n) := by
  induction n generalizing a buffer with
  | zero => rfl
  | succ n ih =>
    rw [samplesOnto?, sample?_eq h]
    exact ih _ (inRange_sample h)

/-! ## Runs -/

/-- What happens to the unit: an operation, or a single clock of its timers. -/
inductive Move
  | act (a : Act)
  | clockTimers

def moved (a : Apu) : Move → Apu
  | .act act => a.acted act
  | .clockTimers => a.clockTimers

def acted? (a : Apu) : Act → Option Apu
  | .write addr value => a.write? addr value
  | .readStatus => some a.readStatus.2
  | .stepSequencer => a.stepSequencer?
  | .samples n => do
    let (_, a) ← a.samplesOnto? #[] n
    some a
  | .withSampleRate rate => some (a.withSampleRate rate)
  | .withMixing mixing => some (a.withMixing mixing)
  | .reset => some a.reset

def moved? (a : Apu) : Move → Option Apu
  | .act act => a.acted? act
  | .clockTimers => a.clockTimers?

/-- **Every act** of the unit runs through. -/
theorem acted?_eq (h : a.channels.InRange) (act : Act) : a.acted? act = some (a.acted act) := by
  cases act with
  | write addr value => exact write?_eq h addr value
  | stepSequencer => exact stepSequencer?_eq h
  | samples n =>
    rw [acted?, samplesOnto?_eq n #[] h]
    rfl
  | readStatus | withSampleRate | withMixing | reset => rfl

theorem moved?_eq (h : a.channels.InRange) (m : Move) : a.moved? m = some (a.moved m) := by
  cases m with
  | act act => exact acted?_eq h act
  | clockTimers => exact clockTimers?_eq h

/-- And it leaves the channels in range, so the next one does as well. -/
theorem inRange_moved (h : a.channels.InRange) (m : Move) : (a.moved m).channels.InRange := by
  cases m with
  | act act => exact inRange_acted h act
  | clockTimers => exact inRange_clockTimers h

/-- What a unit can become by moves, from power-on or from a saved state of a given kind.  A state
that is put back is confined. -/
inductive Reached (Saved : Apu → Prop) : Apu → Prop
  | powerOn : Reached Saved powerOn
  | restored {saved : Apu} (h : Saved saved) : Reached Saved saved.confine
  | moved {a : Apu} (h : Reached Saved a) (m : Move) : Reached Saved (a.moved m)

/-- Whatever was saved, a unit that has been reached is in range. -/
theorem Reached.inRange {Saved : Apu → Prop} (h : a.Reached Saved) : a.channels.InRange := by
  induction h with
  | powerOn => exact inRange_powerOn
  | restored => exact inRange_confine _
  | moved _ m ih => exact inRange_moved ih m

/-- Any number of moves from a unit that was reached. -/
theorem Reached.run {Saved : Apu → Prop} (h : a.Reached Saved) (moves : List Move) :
    (moves.foldl Apu.moved a).Reached Saved :=
  List.foldlRecOn (motive := fun a => a.Reached Saved) moves Apu.moved h
    fun _ h m _ => h.moved m

/-- A run of moves keeps the parts in range, and nothing goes wrong in it. -/
theorem runs_checked (h : a.channels.InRange) (moves : List Move) :
    moves.foldlM moved? a = some (moves.foldl moved a) ∧
      (moves.foldl moved a).channels.InRange := by
  induction moves generalizing a with
  | nil => exact ⟨rfl, h⟩
  | cons m rest ih =>
    rw [List.foldlM_cons, moved?_eq h m]
    exact ih (inRange_moved h m)

/-- Whatever the fields of a unit hold: once it is confined, no run of moves goes wrong, and after
it nothing goes wrong in working out the levels, which have four bits.  The shift register of the
noise channel is a number of fifteen bits other than zero, and the periods of the pulse channels fit
their timers. -/
theorem confine_runs_checked (a : Apu) (moves : List Move) :
    ∃ b, moves.foldlM moved? a.confine = some b ∧ b = moves.foldl moved a.confine ∧
      b.levels? = some b.levels ∧ b.levels.InRange ∧
      b.noise.shift ≠ 0 ∧ b.noise.shift.toNat < 2 ^ 15 ∧
      b.pulse1.timer.period ≤ Timer.maxPeriod ∧ b.pulse2.timer.period ≤ Timer.maxPeriod := by
  obtain ⟨hrun, h⟩ := runs_checked (inRange_confine a) moves
  refine ⟨_, hrun, rfl, levels?_eq h, inRange_levels h, h.noise.shift_ne_zero, h.noise.shift_lt,
    ?_, ?_⟩
  · exact UInt16.le_iff_toNat_le.mpr (Nat.le_of_lt_succ h.pulse1.timer.period)
  · exact UInt16.le_iff_toNat_le.mpr (Nat.le_of_lt_succ h.pulse2.timer.period)

end Apu

end Famicom.Sound
