import Famicom.Proofs.Sound.Range

/-!
# What can be done to the audio unit

`Apu.Act` lists the operations of the audio unit.  Every run of them from power-on keeps all parts
in range, so that confining the unit leaves the channels as they are but for the noise timer.

* `Apu.inRange_run` — the parts of a unit that has only been operated are in range.
* `Apu.InRange.confine_channels` — what confining does to such a unit.
-/

namespace Famicom.Sound.Apu

/-- An operation of the audio unit. -/
inductive Act
  | write (addr : UInt16) (value : UInt8)
  | readStatus
  | stepSequencer
  | samples (n : Nat)
  | withSampleRate (rate : UInt32)
  | withMixing (mixing : Mixing)
  | reset

/-- The unit after an operation. -/
def acted (a : Apu) : Act → Apu
  | .write addr value => a.write addr value
  | .readStatus => a.readStatus.2
  | .stepSequencer => a.stepSequencer
  | .samples n => (a.samples n).2
  | .withSampleRate rate => a.withSampleRate rate
  | .withMixing mixing => a.withMixing mixing
  | .reset => a.reset

/-- The unit after a list of operations. -/
def run (a : Apu) (acts : List Act) : Apu := acts.foldl acted a

/-- The channels and the sequencer, without what only the host sees. -/
structure Channels where
  pulse1 : Pulse
  pulse2 : Pulse
  triangle : Triangle
  noise : Noise
  sequencer : Sequencer
  deriving DecidableEq, Repr

/-- The channels and the sequencer of a unit. -/
def channels (a : Apu) : Channels := ⟨a.pulse1, a.pulse2, a.triangle, a.noise, a.sequencer⟩

/-- All parts are in range. -/
structure Channels.InRange (c : Channels) : Prop where
  pulse1 : c.pulse1.InRange
  pulse2 : c.pulse2.InRange
  triangle : c.triangle.InRange
  noise : c.noise.InRange
  sequencer : c.sequencer.InRange

/-- Every counter starts at zero, and the noise with a period of the table. -/
theorem inRange_powerOn : powerOn.channels.InRange where
  pulse1 := Pulse.inRange_powerOn true
  pulse2 := Pulse.inRange_powerOn false
  triangle := Triangle.inRange_powerOn
  noise := Noise.inRange_powerOn
  sequencer := Sequencer.inRange_powerOn

/-! ## Every operation keeps the parts in range -/

section

variable {a : Apu}

theorem inRange_clockQuarter (h : a.channels.InRange) : a.clockQuarter.channels.InRange :=
  ⟨h.pulse1.clockQuarter, h.pulse2.clockQuarter, h.triangle.clockQuarter, h.noise.clockQuarter,
    h.sequencer⟩

theorem inRange_clockHalf (h : a.channels.InRange) : a.clockHalf.channels.InRange :=
  ⟨h.pulse1.clockHalf, h.pulse2.clockHalf, h.triangle.clockHalf, h.noise.clockHalf, h.sequencer⟩

/-- A beat clocks both kinds of frames, one or none. -/
theorem inRange_clockFrame (h : a.channels.InRange) (clocks : Beat) :
    (a.clockFrame clocks).channels.InRange := by
  unfold clockFrame
  cases clocks.quarter <;> cases clocks.half
  · exact h
  · exact inRange_clockHalf h
  · exact inRange_clockQuarter h
  · exact inRange_clockHalf (inRange_clockQuarter h)

theorem inRange_stepSequencer (h : a.channels.InRange) : a.stepSequencer.channels.InRange := by
  unfold stepSequencer
  refine inRange_clockFrame ?_ _
  exact ⟨h.pulse1, h.pulse2, h.triangle, h.noise, Sequencer.inRange_advance a.sequencer⟩

theorem inRange_writeStatus (h : a.channels.InRange) (value : UInt8) :
    (a.writeStatus value).channels.InRange :=
  ⟨h.pulse1.enable _, h.pulse2.enable _, h.triangle.enable _, h.noise.enable _, h.sequencer⟩

/-- A write to the frame counter may clock at once. -/
theorem inRange_writeFrameCounter (h : a.channels.InRange) (value : UInt8) :
    (a.writeFrameCounter value).channels.InRange := by
  unfold writeFrameCounter
  refine inRange_clockFrame ?_ _
  exact ⟨h.pulse1, h.pulse2, h.triangle, h.noise, Sequencer.inRange_writeControl a.sequencer value⟩

/-- A write concerns one channel, and cuts its fields out of the byte. -/
theorem inRange_write (h : a.channels.InRange) (addr : UInt16) (value : UInt8) :
    (a.write addr value).channels.InRange := by
  have hpulse1 (p : Pulse) (hp : p.InRange) : { a with pulse1 := p }.channels.InRange :=
    ⟨hp, h.pulse2, h.triangle, h.noise, h.sequencer⟩
  have hpulse2 (p : Pulse) (hp : p.InRange) : { a with pulse2 := p }.channels.InRange :=
    ⟨h.pulse1, hp, h.triangle, h.noise, h.sequencer⟩
  have htriangle (t : Triangle) (ht : t.InRange) : { a with triangle := t }.channels.InRange :=
    ⟨h.pulse1, h.pulse2, ht, h.noise, h.sequencer⟩
  have hnoise (n : Noise) (hn : n.InRange) : { a with noise := n }.channels.InRange :=
    ⟨h.pulse1, h.pulse2, h.triangle, hn, h.sequencer⟩
  unfold write
  split
  · exact hpulse1 _ (h.pulse1.writeControl value)
  · exact hpulse1 _ (h.pulse1.writeSweep value)
  · exact hpulse1 _ (h.pulse1.writeTimerLow value)
  · exact hpulse1 _ (h.pulse1.writeTimerHigh value)
  · exact hpulse2 _ (h.pulse2.writeControl value)
  · exact hpulse2 _ (h.pulse2.writeSweep value)
  · exact hpulse2 _ (h.pulse2.writeTimerLow value)
  · exact hpulse2 _ (h.pulse2.writeTimerHigh value)
  · exact htriangle _ (h.triangle.writeLinear value)
  · exact htriangle _ (h.triangle.writeTimerLow value)
  · exact htriangle _ (h.triangle.writeTimerHigh value)
  · exact hnoise _ (h.noise.writeControl value)
  · exact hnoise _ (h.noise.writePeriod value)
  · exact hnoise _ (h.noise.writeLength value)
  · exact inRange_writeStatus h value
  · exact inRange_writeFrameCounter h value
  · exact h

theorem inRange_clockTimers (h : a.channels.InRange) : a.clockTimers.channels.InRange := by
  unfold clockTimers
  dsimp only
  split
  · exact ⟨h.pulse1.clockTimer, h.pulse2.clockTimer, h.triangle.clockTimer, h.noise.clockTimer,
      h.sequencer⟩
  · exact ⟨h.pulse1, h.pulse2, h.triangle.clockTimer, h.noise, h.sequencer⟩

/-- Timers only count within their periods, however often they are clocked. -/
theorem inRange_runTimers (n : Nat) (h : a.channels.InRange) :
    (a.runTimers n).channels.InRange := by
  induction n generalizing a with
  | zero => exact h
  | succ n ih => exact ih (inRange_clockTimers h)

theorem inRange_sample (h : a.channels.InRange) : a.sample.2.channels.InRange :=
  inRange_runTimers a.accrue.1 (a := a.accrue.2) h

theorem inRange_samplesOnto (n : Nat) (buffer : Array UInt8) (h : a.channels.InRange) :
    (a.samplesOnto buffer n).2.channels.InRange := by
  induction n generalizing a buffer with
  | zero => exact h
  | succ n ih => exact ih _ (inRange_sample h)

/-- The mixing law is not in the channels. -/
theorem channels_withMixing (a : Apu) (mixing : Mixing) :
    (a.withMixing mixing).channels = a.channels := by
  unfold withMixing
  split <;> rfl

/-- Every operation keeps the parts in range. -/
theorem inRange_acted (h : a.channels.InRange) (act : Act) : (a.acted act).channels.InRange := by
  cases act with
  | write addr value => exact inRange_write h addr value
  | readStatus => exact ⟨h.pulse1, h.pulse2, h.triangle, h.noise, h.sequencer.acknowledge⟩
  | stepSequencer => exact inRange_stepSequencer h
  | samples n => exact inRange_samplesOnto n #[] h
  | withSampleRate rate => exact h
  | withMixing mixing => exact channels_withMixing a mixing ▸ h
  | reset => exact inRange_powerOn

/-- Every run of operations keeps the parts in range. -/
theorem inRange_run (h : a.channels.InRange) (acts : List Act) :
    (a.run acts).channels.InRange := by
  induction acts generalizing a with
  | nil => exact h
  | cons act rest ih => exact ih (inRange_acted h act)

/-! ## Confining -/

/-- Whatever a unit held, confining it brings it in range. -/
theorem inRange_confine (a : Apu) : a.confine.channels.InRange where
  pulse1 := Pulse.inRange_confine a.pulse1
  pulse2 := Pulse.inRange_confine a.pulse2
  triangle := Triangle.inRange_confine a.triangle
  noise := Noise.inRange_confine a.noise
  sequencer := Sequencer.inRange_confine a.sequencer

/-- The clocks left before the noise timer reloads fit into its present period. -/
def noiseSettled (a : Apu) : Prop := a.noise.timer.counter ≤ a.noise.timer.period

/-- Confining a unit in range shortens the present run of the noise timer, and nothing else of the
channels and the sequencer. -/
theorem confine_channels (h : a.channels.InRange) :
    a.confine.channels =
      { a.channels with
        noise := { a.noise with
          timer := { a.noise.timer with
            counter := min a.noise.timer.counter a.noise.timer.period } } } := by
  have hpulse1 : a.pulse1.confine = a.pulse1 := h.pulse1.confine_eq
  have hpulse2 : a.pulse2.confine = a.pulse2 := h.pulse2.confine_eq
  have htriangle : a.triangle.confine = a.triangle := h.triangle.confine_eq
  have hsequencer : a.sequencer.confine = a.sequencer := h.sequencer.confine_eq
  have hnoise := Noise.InRange.confine_eq (n := a.noise) h.noise
  simp only [confine, channels, hpulse1, hpulse2, htriangle, hnoise, hsequencer]

theorem min_counter_eq_iff (counter period : UInt16) :
    min counter period = counter ↔ counter ≤ period := by
  change (if counter ≤ period then counter else period) = counter ↔ counter ≤ period
  split
  · next hle => exact ⟨fun _ => hle, fun _ => rfl⟩
  · next hgt => exact ⟨fun heq => heq ▸ UInt16.le_refl _, fun hle => absurd hle hgt⟩

/-- Confining a unit in range keeps its channels just if the noise timer's run fits its period. -/
theorem confine_channels_eq_iff (h : a.channels.InRange) :
    a.confine.channels = a.channels ↔ a.noiseSettled := by
  rw [confine_channels h, noiseSettled, ← min_counter_eq_iff]
  constructor
  · intro heq
    exact congrArg (·.noise.timer.counter) heq
  · intro hcounter
    rw [hcounter]
    rfl

end

end Famicom.Sound.Apu
