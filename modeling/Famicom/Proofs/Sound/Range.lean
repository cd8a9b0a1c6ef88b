import Famicom.Sound.Apu
import Mathlib.Algebra.Group.Nat.Defs

/-!
# The ranges of the audio unit's fields

The fields of the channels are bytes and words, but the registers and the clocks keep them much
smaller.  Each part of the audio unit has a predicate `InRange` that its power-on state has and its
operations preserve.  Where it holds, `confine` has nothing to do, with one exception: a noise
timer may have more clocks left than its present period.

* `Pulse.inRange_confine`, `Triangle.inRange_confine`, `Noise.inRange_confine`,
  `Sequencer.inRange_confine` — confining brings any state into range.
* `Pulse.InRange.confine_eq`, `Triangle.InRange.confine_eq`, `Sequencer.InRange.confine_eq` —
  confining changes nothing.
* `Noise.InRange.confine_eq` — confining shortens the present run of the noise timer to its period.
-/

namespace Famicom.Sound

/-! ## Masks and countdowns -/

/-- A mask bounds what is cut out with it. -/
theorem byte_mask_lt (v m : UInt8) : (v &&& m).toNat < m.toNat + 1 := by
  rw [UInt8.toNat_and]
  exact Nat.lt_succ_of_le Nat.and_le_right

theorem word_mask_lt (v m : UInt16) : (v &&& m).toNat < m.toNat + 1 := by
  rw [UInt16.toNat_and]
  exact Nat.lt_succ_of_le Nat.and_le_right

/-- What fits under a mask of ones goes through it unchanged. -/
theorem byte_mask_eq {v m : UInt8} (k : Nat) (hm : m.toNat = 2 ^ k - 1) (h : v.toNat < 2 ^ k) :
    v &&& m = v := by
  apply UInt8.toNat_inj.mp
  rw [UInt8.toNat_and, hm, Nat.and_two_pow_sub_one_eq_mod, Nat.mod_eq_of_lt h]

theorem word_mask_eq {v m : UInt16} (k : Nat) (hm : m.toNat = 2 ^ k - 1) (h : v.toNat < 2 ^ k) :
    v &&& m = v := by
  apply UInt16.toNat_inj.mp
  rw [UInt16.toNat_and, hm, Nat.and_two_pow_sub_one_eq_mod, Nat.mod_eq_of_lt h]

/-- Counting down from above zero stays in range. -/
theorem byte_pred_lt {v : UInt8} {n : Nat} (hv : v ≠ 0) (h : v.toNat < n) : (v - 1).toNat < n := by
  have hpos : v.toNat ≠ 0 := fun h0 => hv (UInt8.toNat_inj.mp h0)
  have hlt := v.toNat_lt
  rw [UInt8.toNat_sub, UInt8.toNat_one]
  omega

theorem word_pred_lt {v : UInt16} {n : Nat} (hv : v ≠ 0) (h : v.toNat < n) :
    (v - 1).toNat < n := by
  have hpos : v.toNat ≠ 0 := fun h0 => hv (UInt16.toNat_inj.mp h0)
  have hlt := v.toNat_lt
  rw [UInt16.toNat_sub, UInt16.toNat_one]
  omega

theorem byte_toNat_min (a b : UInt8) : (min a b).toNat = min a.toNat b.toNat := by
  rw [show min a b = if a ≤ b then a else b from rfl, Nat.min_def]
  simp only [UInt8.le_iff_toNat_le]
  split <;> rfl

theorem byte_toNat_max (a b : UInt8) : (max a b).toNat = max a.toNat b.toNat := by
  rw [show max a b = if a ≤ b then b else a from rfl, Nat.max_def]
  simp only [UInt8.le_iff_toNat_le]
  split <;> rfl

/-! ## Envelopes -/

/-- Volume and levels have four bits. -/
structure Envelope.InRange (e : Envelope) : Prop where
  volume : e.volume.toNat < 2 ^ 4
  divider : e.divider.toNat < 2 ^ 4
  decay : e.decay.toNat < 2 ^ 4

namespace Envelope

variable {e : Envelope}

theorem inRange_powerOn : powerOn.InRange := by
  constructor <;> decide

theorem InRange.write (h : e.InRange) (value : UInt8) : (e.write value).InRange where
  volume := byte_mask_lt ..
  divider := h.divider
  decay := h.decay

theorem InRange.restart (h : e.InRange) : e.restart.InRange := ⟨h.volume, h.divider, h.decay⟩

/-- A decay of four bits stays one, also when it starts again. -/
theorem lowerDecay_lt (looping : Bool) {decay : UInt8} (h : decay.toNat < 2 ^ 4) :
    (lowerDecay looping decay).toNat < 2 ^ 4 := by
  unfold lowerDecay
  split
  · next hne => exact byte_pred_lt hne h
  · split <;> decide

theorem InRange.clock (h : e.InRange) (looping : Bool) : (e.clock looping).InRange := by
  unfold Envelope.clock
  split
  · exact ⟨h.volume, h.volume, (by decide : (15 : UInt8).toNat < 2 ^ 4)⟩
  · split
    · exact ⟨h.volume, h.volume, lowerDecay_lt looping h.decay⟩
    · next hne => exact ⟨h.volume, byte_pred_lt hne h.divider, h.decay⟩

theorem inRange_confine (e : Envelope) : e.confine.InRange :=
  ⟨byte_mask_lt .., byte_mask_lt .., byte_mask_lt ..⟩

theorem InRange.confine_eq (h : e.InRange) : e.confine = e := by
  rw [confine, byte_mask_eq 4 rfl h.volume, byte_mask_eq 4 rfl h.divider,
    byte_mask_eq 4 rfl h.decay]

end Envelope

/-! ## Timers of the tone channels -/

/-- Period and counter have eleven bits. -/
structure Timer.InRange (t : Timer) : Prop where
  period : t.period.toNat < 2 ^ 11
  counter : t.counter.toNat < 2 ^ 11

namespace Timer

variable {t : Timer}

theorem inRange_zero : InRange ⟨0, 0⟩ := by
  constructor <;> decide

theorem InRange.writeLow (h : t.InRange) (value : UInt8) : (t.writeLow value).InRange := by
  have hhigh : t.period.toNat / 256 < 8 := by
    have := h.period
    omega
  have hvalue := value.toNat_lt
  refine ⟨?_, h.counter⟩
  rw [Timer.writeLow, toNat_wordOf, toNat_highByte]
  omega

theorem InRange.writeHigh (h : t.InRange) (value : UInt8) : (t.writeHigh value).InRange := by
  have hhigh : (value &&& 0x07).toNat < 8 := byte_mask_lt value 0x07
  refine ⟨?_, h.counter⟩
  rw [Timer.writeHigh, toNat_wordOf, toNat_lowByte]
  omega

theorem InRange.clock (h : t.InRange) : t.clock.2.InRange := by
  unfold Timer.clock
  split
  · exact ⟨h.period, h.period⟩
  · next hne => exact ⟨h.period, word_pred_lt hne h.counter⟩

theorem inRange_confine (t : Timer) : t.confine.InRange := ⟨word_mask_lt .., word_mask_lt ..⟩

theorem InRange.confine_eq (h : t.InRange) : t.confine = t := by
  rw [confine, word_mask_eq 11 rfl h.period, word_mask_eq 11 rfl h.counter]

end Timer

/-! ## Sweeps -/

/-- The divider counts up to eight half frames and the shift has three bits. -/
structure Sweep.InRange (s : Sweep) : Prop where
  period_pos : 1 ≤ s.period.toNat
  period_le : s.period.toNat ≤ 8
  shift : s.shift.toNat < 2 ^ 3
  divider : s.divider.toNat ≤ 8

namespace Sweep

variable {s : Sweep}

theorem inRange_powerOn (onesComplement : Bool) : (powerOn onesComplement).InRange := by
  cases onesComplement <;> constructor <;> decide

theorem InRange.write (h : s.InRange) (value : UInt8) : (s.write value).InRange := by
  have hbits : ((value >>> 4) &&& 0x07).toNat < 8 := byte_mask_lt _ 0x07
  have hperiod : (((value >>> 4) &&& 0x07) + 1).toNat = ((value >>> 4) &&& 0x07).toNat + 1 := by
    rw [UInt8.toNat_add, UInt8.toNat_one]
    exact Nat.mod_eq_of_lt (by omega)
  refine ⟨?_, ?_, byte_mask_lt .., h.divider⟩
  · rw [Sweep.write, hperiod]
    omega
  · rw [Sweep.write, hperiod]
    omega

theorem InRange.clock (h : s.InRange) (period : UInt16) : (s.clock period).2.InRange := by
  unfold Sweep.clock
  split
  · exact ⟨h.period_pos, h.period_le, h.shift, h.period_le⟩
  · next hne =>
    have hdivider : s.divider ≠ 0 := by
      intro h0
      simp [h0] at hne
    have hlt : (s.divider - 1).toNat < 9 := byte_pred_lt hdivider (Nat.lt_succ_of_le h.divider)
    exact ⟨h.period_pos, h.period_le, h.shift, Nat.le_of_lt_succ hlt⟩

/-- A sweep raises a period only if the result fits into eleven bits. -/
theorem adjust_lt (s : Sweep) {period : UInt16} (hperiod : period.toNat < 2 ^ 11) :
    (s.adjust period).toNat < 2 ^ 11 := by
  unfold adjust
  split
  · exact hperiod
  · next hne =>
    have htarget : ¬Timer.maxPeriod < s.target period := by
      simp only [mutes, Bool.or_eq_true, decide_eq_true_eq, not_or] at hne
      exact hne.2.2
    exact Nat.lt_succ_of_le (Nat.le_of_not_lt htarget)

/-- So a clock of the sweep keeps the period in eleven bits. -/
theorem clock_period_lt (s : Sweep) {period : UInt16} (hperiod : period.toNat < 2 ^ 11) :
    (s.clock period).1.toNat < 2 ^ 11 := by
  unfold Sweep.clock
  split
  · split
    · exact adjust_lt s hperiod
    · exact hperiod
  · exact hperiod

theorem inRange_confine (s : Sweep) : s.confine.InRange := by
  have hperiod : (min (max s.period 1) 8).toNat = min (max s.period.toNat 1) 8 := by
    rw [byte_toNat_min, byte_toNat_max]
    rfl
  refine ⟨?_, ?_, byte_mask_lt .., ?_⟩
  · rw [confine, hperiod]
    omega
  · rw [confine, hperiod]
    omega
  · rw [confine, byte_toNat_min]
    exact Nat.min_le_right ..

theorem InRange.confine_eq (h : s.InRange) : s.confine = s := by
  have hperiod : min (max s.period 1) 8 = s.period := by
    apply UInt8.toNat_inj.mp
    rw [byte_toNat_min, byte_toNat_max]
    exact (Nat.min_eq_left (Nat.max_le.mpr ⟨h.period_le, by decide⟩)).trans
      (Nat.max_eq_left h.period_pos)
  have hdivider : min s.divider 8 = s.divider := by
    apply UInt8.toNat_inj.mp
    rw [byte_toNat_min]
    exact Nat.min_eq_left h.divider
  rw [confine, hperiod, hdivider, byte_mask_eq 3 rfl h.shift]

end Sweep

/-! ## Pulse channels -/

/-- The parts are in range, and waveform and step select one of four and one of eight. -/
structure Pulse.InRange (p : Pulse) : Prop where
  envelope : p.envelope.InRange
  timer : p.timer.InRange
  sweep : p.sweep.InRange
  duty : p.duty.toNat < 2 ^ 2
  dutyStep : p.dutyStep.toNat < 2 ^ 3

namespace Pulse

variable {p : Pulse}

theorem inRange_powerOn (onesComplement : Bool) : (powerOn onesComplement).InRange where
  envelope := Envelope.inRange_powerOn
  timer := Timer.inRange_zero
  sweep := Sweep.inRange_powerOn onesComplement
  duty := (by decide : (0 : UInt8).toNat < 2 ^ 2)
  dutyStep := (by decide : (0 : UInt8).toNat < 2 ^ 3)

theorem InRange.writeControl (h : p.InRange) (value : UInt8) : (p.writeControl value).InRange where
  envelope := h.envelope.write value
  timer := h.timer
  sweep := h.sweep
  duty := by
    have hvalue := value.toNat_lt
    rw [Pulse.writeControl, UInt8.toNat_shiftRight, Nat.shiftRight_eq_div_pow]
    exact Nat.div_lt_of_lt_mul hvalue
  dutyStep := h.dutyStep

theorem InRange.writeSweep (h : p.InRange) (value : UInt8) : (p.writeSweep value).InRange :=
  ⟨h.envelope, h.timer, h.sweep.write value, h.duty, h.dutyStep⟩

theorem InRange.writeTimerLow (h : p.InRange) (value : UInt8) :
    (p.writeTimerLow value).InRange :=
  ⟨h.envelope, h.timer.writeLow value, h.sweep, h.duty, h.dutyStep⟩

theorem InRange.writeTimerHigh (h : p.InRange) (value : UInt8) :
    (p.writeTimerHigh value).InRange :=
  ⟨h.envelope.restart, h.timer.writeHigh value, h.sweep, h.duty,
    (by decide : (0 : UInt8).toNat < 2 ^ 3)⟩

theorem InRange.enable (h : p.InRange) (enabled : Bool) : (p.enable enabled).InRange :=
  ⟨h.envelope, h.timer, h.sweep, h.duty, h.dutyStep⟩

theorem InRange.clockTimer (h : p.InRange) : p.clockTimer.InRange := by
  refine ⟨h.envelope, h.timer.clock, h.sweep, h.duty, ?_⟩
  unfold Pulse.clockTimer
  dsimp only
  split
  · exact byte_mask_lt _ 0x07
  · exact h.dutyStep

theorem InRange.clockQuarter (h : p.InRange) : p.clockQuarter.InRange :=
  ⟨h.envelope.clock _, h.timer, h.sweep, h.duty, h.dutyStep⟩

theorem InRange.clockHalf (h : p.InRange) : p.clockHalf.InRange :=
  ⟨h.envelope, ⟨Sweep.clock_period_lt p.sweep h.timer.period, h.timer.counter⟩,
    h.sweep.clock p.timer.period, h.duty, h.dutyStep⟩

theorem inRange_confine (p : Pulse) : p.confine.InRange :=
  ⟨Envelope.inRange_confine _, Timer.inRange_confine _, Sweep.inRange_confine _, byte_mask_lt ..,
    byte_mask_lt ..⟩

theorem InRange.confine_eq (h : p.InRange) : p.confine = p := by
  rw [confine, byte_mask_eq 2 rfl h.duty, byte_mask_eq 3 rfl h.dutyStep, h.timer.confine_eq,
    h.envelope.confine_eq, h.sweep.confine_eq]

end Pulse

/-! ## The triangle channel -/

/-- The linear counter has seven bits, the timer eleven and the step five. -/
structure Triangle.InRange (t : Triangle) : Prop where
  reloadValue : t.linear.reloadValue.toNat < 2 ^ 7
  count : t.linear.count.toNat < 2 ^ 7
  timer : t.timer.InRange
  step : t.step.toNat < 2 ^ 5

namespace Triangle

variable {t : Triangle}

theorem inRange_powerOn : powerOn.InRange where
  reloadValue := by decide
  count := by decide
  timer := Timer.inRange_zero
  step := by decide

theorem InRange.writeLinear (h : t.InRange) (value : UInt8) : (t.writeLinear value).InRange :=
  ⟨byte_mask_lt value 0x7F, h.count, h.timer, h.step⟩

theorem InRange.writeTimerLow (h : t.InRange) (value : UInt8) :
    (t.writeTimerLow value).InRange :=
  ⟨h.reloadValue, h.count, h.timer.writeLow value, h.step⟩

theorem InRange.writeTimerHigh (h : t.InRange) (value : UInt8) :
    (t.writeTimerHigh value).InRange :=
  ⟨h.reloadValue, h.count, h.timer.writeHigh value, h.step⟩

theorem InRange.enable (h : t.InRange) (enabled : Bool) : (t.enable enabled).InRange :=
  ⟨h.reloadValue, h.count, h.timer, h.step⟩

theorem InRange.clockTimer (h : t.InRange) : t.clockTimer.InRange := by
  refine ⟨h.reloadValue, h.count, h.timer.clock, ?_⟩
  unfold Triangle.clockTimer
  dsimp only
  split
  · exact byte_mask_lt _ 0x1F
  · exact h.step

theorem InRange.clockQuarter (h : t.InRange) : t.clockQuarter.InRange := by
  refine ⟨h.reloadValue, ?_, h.timer, h.step⟩
  unfold Triangle.clockQuarter LinearCounter.clock
  dsimp only
  split
  · exact h.reloadValue
  · split
    · next hne => exact byte_pred_lt hne h.count
    · decide

theorem InRange.clockHalf (h : t.InRange) : t.clockHalf.InRange :=
  ⟨h.reloadValue, h.count, h.timer, h.step⟩

theorem inRange_confine (t : Triangle) : t.confine.InRange :=
  ⟨byte_mask_lt .., byte_mask_lt .., Timer.inRange_confine _, byte_mask_lt ..⟩

/-- Confining leaves a triangle in range as it is. -/
theorem InRange.confine_eq (h : t.InRange) : t.confine = t := by
  rw [confine, LinearCounter.confine, byte_mask_eq 7 rfl h.reloadValue, byte_mask_eq 7 rfl h.count,
    h.timer.confine_eq, byte_mask_eq 5 rfl h.step]

end Triangle

/-! ## The noise channel -/

/-- The period is in the table and the shift register has fifteen bits, not all zero.  The clocks
left before the timer reloads are not bounded by the present period: it may have been shortened
meanwhile. -/
structure Noise.InRange (n : Noise) : Prop where
  envelope : n.envelope.InRange
  period : noisePeriods.contains n.timer.period
  shift_ne_zero : n.shift ≠ 0
  shift_lt : n.shift.toNat < 2 ^ 15

namespace Noise

variable {n : Noise}

/-- Every index of the table gives a period of the table. -/
theorem contains_noisePeriods (i : Nat) (h : i < 16) : noisePeriods.contains noisePeriods[i] := by
  simp

theorem inRange_powerOn : powerOn.InRange where
  envelope := Envelope.inRange_powerOn
  period := contains_noisePeriods 0 (by decide)
  shift_ne_zero := by decide
  shift_lt := by decide

theorem InRange.writeControl (h : n.InRange) (value : UInt8) : (n.writeControl value).InRange :=
  ⟨h.envelope.write value, h.period, h.shift_ne_zero, h.shift_lt⟩

theorem InRange.writePeriod (h : n.InRange) (value : UInt8) : (n.writePeriod value).InRange := by
  refine ⟨h.envelope, ?_, h.shift_ne_zero, h.shift_lt⟩
  exact contains_noisePeriods (lowDigit value) (lowDigit value).isLt

theorem InRange.writeLength (h : n.InRange) (value : UInt8) : (n.writeLength value).InRange :=
  ⟨h.envelope.restart, h.period, h.shift_ne_zero, h.shift_lt⟩

theorem InRange.enable (h : n.InRange) (enabled : Bool) : (n.enable enabled).InRange :=
  ⟨h.envelope, h.period, h.shift_ne_zero, h.shift_lt⟩

/-- The bit that is fed back is the topmost of fifteen. -/
theorem feedback_lt (shortMode : Bool) {shift : UInt16} (h : shift.toNat < 2 ^ 15) :
    (feedback shortMode shift).toNat < 2 ^ 15 := by
  have hbit (w : UInt16) : ((w &&& 1) <<< 14).toNat < 2 ^ 15 := by
    have hle : w.toNat &&& 1 ≤ 1 := Nat.and_le_right
    have hfourteen : UInt16.toNat 14 % 16 = 14 := by decide
    rw [UInt16.toNat_shiftLeft, UInt16.toNat_and, UInt16.toNat_one, Nat.shiftLeft_eq, hfourteen]
    omega
  have hhalf : (shift >>> 1).toNat < 2 ^ 15 := by
    rw [UInt16.toNat_shiftRight, Nat.shiftRight_eq_div_pow]
    exact Nat.lt_of_le_of_lt (Nat.div_le_self ..) h
  rw [feedback, UInt16.toNat_or]
  exact Nat.or_lt_two_pow hhalf (hbit _)

/-- A register that is not all zero stays so: when only the lowest bit is set, it is fed back. -/
theorem feedback_ne_zero (shortMode : Bool) {shift : UInt16} (h : shift ≠ 0) :
    feedback shortMode shift ≠ 0 := by
  by_cases hone : shift = 1
  · subst hone
    cases shortMode <;> decide
  · intro hzero
    have hor := congrArg UInt16.toNat hzero
    rw [feedback, UInt16.toNat_or, UInt16.toNat_zero, Nat.or_eq_zero_iff,
      UInt16.toNat_shiftRight, Nat.shiftRight_eq_div_pow] at hor
    have hsmall : shift.toNat / 2 = 0 := hor.1
    have hne : shift.toNat ≠ 0 := fun h0 => h (UInt16.toNat_inj.mp h0)
    have hne' : shift.toNat ≠ 1 := fun h1 => hone (UInt16.toNat_inj.mp h1)
    omega

theorem InRange.clockTimer (h : n.InRange) : n.clockTimer.InRange := by
  have hperiod : n.timer.clock.2.period = n.timer.period := by
    unfold Timer.clock
    split <;> rfl
  unfold Noise.clockTimer
  refine ⟨h.envelope, ?_, ?_, ?_⟩
  · exact hperiod ▸ h.period
  · dsimp only
    split
    · exact feedback_ne_zero _ h.shift_ne_zero
    · exact h.shift_ne_zero
  · dsimp only
    split
    · exact feedback_lt _ h.shift_lt
    · exact h.shift_lt

theorem InRange.clockQuarter (h : n.InRange) : n.clockQuarter.InRange :=
  ⟨h.envelope.clock _, h.period, h.shift_ne_zero, h.shift_lt⟩

theorem InRange.clockHalf (h : n.InRange) : n.clockHalf.InRange :=
  ⟨h.envelope, h.period, h.shift_ne_zero, h.shift_lt⟩

theorem inRange_confine (n : Noise) : n.confine.InRange := by
  refine ⟨Envelope.inRange_confine _, ?_, ?_, ?_⟩
  · unfold confine
    dsimp only
    split
    · next hknown => exact hknown
    · exact contains_noisePeriods 0 (by decide)
  · unfold confine
    dsimp only
    split
    · decide
    · next hne => exact hne
  · unfold confine
    dsimp only
    split
    · decide
    · exact word_mask_lt _ 0x7FFF

/-- Confining a noise channel in range shortens the present run of its timer to the period. -/
theorem InRange.confine_eq (h : n.InRange) :
    n.confine =
      { n with timer := { n.timer with counter := min n.timer.counter n.timer.period } } := by
  rw [confine, if_pos h.period, word_mask_eq 15 rfl h.shift_lt, if_neg h.shift_ne_zero,
    h.envelope.confine_eq]

end Noise

/-! ## The sequencer -/

/-- The step is one of the cycle, or zero. -/
def Sequencer.InRange (s : Sequencer) : Prop := s.step.toNat ≤ if s.fiveStep then 5 else 4

namespace Sequencer

variable {s : Sequencer}

theorem inRange_powerOn : powerOn.InRange := Nat.zero_le _

theorem inRange_writeControl (s : Sequencer) (value : UInt8) : (s.writeControl value).InRange :=
  Nat.zero_le _

theorem InRange.acknowledge (h : s.InRange) : s.acknowledge.InRange := h

/-- After the last step the sequencer starts again. -/
theorem inRange_advance (s : Sequencer) : s.advance.2.InRange := by
  unfold InRange Sequencer.advance
  dsimp only
  split
  · rw [UInt8.toNat_add, UInt8.toNat_mod]
    simp only [UInt8.reduceToNat]
    omega
  · rw [UInt8.toNat_add, UInt8.toNat_mod]
    simp only [UInt8.reduceToNat]
    omega

theorem inRange_confine (s : Sequencer) : s.confine.InRange := by
  unfold InRange confine
  dsimp only
  split
  · exact Nat.le_of_lt_succ (s.step.toNat_mod_lt (by decide))
  · exact Nat.le_of_lt_succ (s.step.toNat_mod_lt (by decide))

/-- The step is folded by one more than the cycle has, so its end stays where it is. -/
theorem InRange.confine_eq (h : s.InRange) : s.confine = s := by
  have hstep : s.step % (if s.fiveStep then 6 else 5) = s.step := by
    apply UInt8.toNat_inj.mp
    rw [UInt8.toNat_mod]
    unfold InRange at h
    split at h
    · next hmode =>
      rw [if_pos hmode]
      exact Nat.mod_eq_of_lt (Nat.lt_succ_of_le h)
    · next hmode =>
      rw [if_neg hmode]
      exact Nat.mod_eq_of_lt (Nat.lt_succ_of_le h)
  rw [confine, hstep]

end Sequencer

end Famicom.Sound
