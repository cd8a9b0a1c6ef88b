import Famicom.Proofs.Sound.Range

/-!
# The channels in checked arithmetic

On bytes and words a sum may not fit, a difference may lie below zero, a shift may reach the width
of its operand, and an index may lie outside its table.  `Checked` has the operations that give
nothing there.  Every operation of a channel that adds, subtracts, shifts or looks something up is
carried out here a second time with them; its name ends in a question mark, and where it gives
something nothing went wrong on the way.

* `Pulse.InRange.clockTimer?_eq`, `Pulse.InRange.clockHalf?_eq`, `Pulse.InRange.level?_eq` — on a
  pulse channel in range nothing goes wrong, and the result is that of the plain operation; likewise
  on the triangle and the noise channel.
* `Sequencer.advance?_eq`, `Envelope.clock?_eq`, `LengthCounter.load?_eq` — parts on which nothing
  can go wrong.
-/

namespace Famicom.Sound

/-! ## Arithmetic that may give nothing -/

namespace Checked

/-- The sum of two bytes, if it fits a byte. -/
def addByte (a b : UInt8) : Option UInt8 := if a.toNat + b.toNat < 2 ^ 8 then some (a + b) else none

/-- The difference of two bytes, if it is not below zero. -/
def subByte (a b : UInt8) : Option UInt8 := if b ≤ a then some (a - b) else none

/-- The sum of two words, if it fits a word. -/
def addWord (a b : UInt16) : Option UInt16 :=
  if a.toNat + b.toNat < 2 ^ 16 then some (a + b) else none

/-- The difference of two words, if it is not below zero. -/
def subWord (a b : UInt16) : Option UInt16 := if b ≤ a then some (a - b) else none

/-- A byte shifted right, by less than its width. -/
def shiftRightByte (a n : UInt8) : Option UInt8 := if n < 8 then some (a >>> n) else none

/-- A word shifted right, by less than its width. -/
def shiftRightWord (a n : UInt16) : Option UInt16 := if n < 16 then some (a >>> n) else none

/-- A word shifted left, by less than its width. -/
def shiftLeftWord (a n : UInt16) : Option UInt16 := if n < 16 then some (a <<< n) else none

/-- An addition within the width loses nothing. -/
theorem addByte_eq {a b : UInt8} (h : a.toNat + b.toNat < 2 ^ 8) : addByte a b = some (a + b) :=
  if_pos h

theorem addWord_eq {a b : UInt16} (h : a.toNat + b.toNat < 2 ^ 16) : addWord a b = some (a + b) :=
  if_pos h

/-- A difference that is not negative is taken. -/
theorem subWord_eq {a b : UInt16} (h : b ≤ a) : subWord a b = some (a - b) := if_pos h

theorem shiftRightByte_eq {a n : UInt8} (h : n < 8) : shiftRightByte a n = some (a >>> n) :=
  if_pos h

/-- A shift by less than the width is taken. -/
theorem shiftRightWord_eq {a n : UInt16} (h : n < 16) : shiftRightWord a n = some (a >>> n) :=
  if_pos h

/-- What is not zero can be counted down. -/
theorem subByte_one {a : UInt8} (h : a ≠ 0) : subByte a 1 = some (a - 1) := by
  refine if_pos (UInt8.le_iff_toNat_le.mpr ?_)
  exact Nat.pos_of_ne_zero fun h0 => h (UInt8.toNat_inj.mp h0)

/-- What is not zero can be counted down. -/
theorem subWord_one {a : UInt16} (h : a ≠ 0) : subWord a 1 = some (a - 1) := by
  refine subWord_eq (UInt16.le_iff_toNat_le.mpr ?_)
  exact Nat.pos_of_ne_zero fun h0 => h (UInt16.toNat_inj.mp h0)

end Checked

open Checked

/-! ## Length counters -/

namespace LengthCounter

def load? (l : LengthCounter) (value : UInt8) : Option LengthCounter :=
  if l.enabled then do
    let index ← shiftRightByte value 3
    let count ← lengthLoads[index.toNat]?
    some { l with count }
  else some l

def clock? (l : LengthCounter) : Option LengthCounter :=
  if !l.halt && l.running then do
    let count ← subByte l.count 1
    some { l with count }
  else some l

/-- The time loaded is looked up within the table. -/
theorem load?_eq (l : LengthCounter) (value : UInt8) : l.load? value = some (l.load value) := by
  -- five bits select one of 32 entries
  have hindex : (value >>> 3).toNat < 32 := by
    rw [UInt8.toNat_shiftRight, Nat.shiftRight_eq_div_pow]
    exact Nat.div_lt_of_lt_mul value.toNat_lt
  have hcount : lengthLoads[(value >>> 3).toNat]? =
      some lengthLoads[(value >>> 3).toNat % 32] := by
    rw [Vector.getElem?_eq_getElem hindex]
    simp only [Nat.mod_eq_of_lt hindex]
  unfold load? load
  split
  · rw [shiftRightByte_eq (by decide)]
    simp only [hcount, Option.bind_eq_bind, Option.bind_some]
  · rfl

/-- A length counter stops at zero before it is lowered. -/
theorem clock?_eq (l : LengthCounter) : l.clock? = some l.clock := by
  unfold clock? clock
  split
  · next hrunning =>
    have hne : l.count ≠ 0 := by
      simp only [running, Bool.and_eq_true, bne_iff_ne] at hrunning
      exact hrunning.2
    rw [subByte_one hne]
    rfl
  · rfl

end LengthCounter

/-! ## Envelopes -/

namespace Envelope

def lowerDecay? (looping : Bool) (decay : UInt8) : Option UInt8 :=
  if decay ≠ 0 then subByte decay 1 else some (if looping then 15 else 0)

def clock? (looping : Bool) (e : Envelope) : Option Envelope :=
  if e.start then some { e with start := false, decay := 15, divider := e.volume }
  else if e.divider = 0 then do
    let decay ← lowerDecay? looping e.decay
    some { e with divider := e.volume, decay }
  else do
    let divider ← subByte e.divider 1
    some { e with divider }

/-- The decay is lowered from above zero only, and starts again at fifteen. -/
theorem lowerDecay?_eq (looping : Bool) (decay : UInt8) :
    lowerDecay? looping decay = some (lowerDecay looping decay) := by
  unfold lowerDecay? lowerDecay
  split
  · next hne => exact subByte_one hne
  · rfl

/-- The divider of an envelope stops at zero as well. -/
theorem clock?_eq (looping : Bool) (e : Envelope) : e.clock? looping = some (e.clock looping) := by
  unfold clock? clock
  split
  · rfl
  · split
    · rw [lowerDecay?_eq]
      rfl
    · next hne =>
      rw [subByte_one hne]
      rfl

end Envelope

/-! ## Timers -/

namespace Timer

def clock? (t : Timer) : Option (Bool × Timer) :=
  if t.counter = 0 then some (true, { t with counter := t.period })
  else do
    let counter ← subWord t.counter 1
    some (false, { t with counter })

def writeHigh? (t : Timer) (value : UInt8) : Option Timer := do
  let high ← shiftLeftWord (value &&& 0x07).toUInt16 8
  some { t with period := high ||| (lowByte t.period).toUInt16 }

/-- A timer that has run out takes its period, and others are lowered. -/
theorem clock?_eq (t : Timer) : t.clock? = some t.clock := by
  unfold clock? clock
  split
  · rfl
  · next hne =>
    rw [subWord_one hne]
    rfl

theorem writeHigh?_eq (t : Timer) (value : UInt8) : t.writeHigh? value = some (t.writeHigh value) :=
  rfl

end Timer

/-! ## Sweeps -/

namespace Sweep

def write? (s : Sweep) (value : UInt8) : Option Sweep := do
  let bits ← shiftRightByte value 4
  let period ← addByte (bits &&& 0x07) 1
  some { s with
    enabled := hasBits value 0x80
    period
    negate := hasBits value 0x08
    shift := value &&& 0x07
    reload := true }

def target? (s : Sweep) (period : UInt16) : Option UInt16 := do
  let change ← shiftRightWord period s.shift.toUInt16
  if s.negate then
    let change ← addWord change (if s.onesComplement then 1 else 0)
    if change ≤ period then subWord period change else some 0
  else addWord period change

def adjust? (s : Sweep) (period : UInt16) : Option UInt16 :=
  if s.shift = 0 || period < 8 then some period
  else do
    let target ← s.target? period
    some (if target ≤ Timer.maxPeriod then target else period)

def clock? (s : Sweep) (period : UInt16) : Option (UInt16 × Sweep) :=
  if s.divider = 0 || s.reload then do
    let period ← (if s.divider = 0 && s.enabled then s.adjust? period else some period)
    some (period, { s with divider := s.period, reload := false })
  else do
    let divider ← subByte s.divider 1
    some (period, { s with divider })

/-- The divider period is one more than three bits, which fits. -/
theorem write?_eq (s : Sweep) (value : UInt8) : s.write? value = some (s.write value) := by
  have hbits : ((value >>> 4) &&& 0x07).toNat < 8 := byte_mask_lt _ 0x07
  have hadd : addByte ((value >>> 4) &&& 0x07) 1 = some (((value >>> 4) &&& 0x07) + 1) :=
    addByte_eq (Nat.lt_of_lt_of_le (Nat.add_lt_add_right hbits 1) (by decide))
  rw [write?, shiftRightByte_eq (by decide)]
  simp only [hadd, Option.bind_eq_bind, Option.bind_some]
  rfl

variable {s : Sweep}

/-- A shift of three bits is less than the width of a period. -/
theorem InRange.shift_lt_width (h : s.InRange) : s.shift.toUInt16 < 16 := by
  rw [UInt16.lt_iff_toNat_lt, UInt8.toNat_toUInt16]
  exact Nat.lt_trans h.shift (by decide)

/-- A period is changed by no more than itself. -/
theorem change_le (s : Sweep) (period : UInt16) :
    (period >>> s.shift.toUInt16).toNat ≤ period.toNat := by
  rw [UInt16.toNat_shiftRight, Nat.shiftRight_eq_div_pow]
  exact Nat.div_le_self ..

/-- Twice a period of eleven bits and one more fit a word. -/
theorem InRange.target?_eq (h : s.InRange) {period : UInt16} (hperiod : period.toNat < 2 ^ 11) :
    s.target? period = some (s.target period) := by
  have hchange := change_le s period
  have hextra : (if s.onesComplement then 1 else 0 : UInt16).toNat ≤ 1 := by
    cases s.onesComplement <;> decide
  unfold target? target
  simp only [shiftRightWord_eq h.shift_lt_width, Option.bind_eq_bind, Option.bind_some]
  split
  · rw [addWord_eq (by omega), Option.bind_some]
    by_cases hle : (period >>> s.shift.toUInt16) + (if s.onesComplement then 1 else 0) ≤ period
    · rw [if_pos hle, if_pos hle, subWord_eq hle]
    · rw [if_neg hle, if_neg hle]
  · exact addWord_eq (by omega)

/-- Lowering cannot go below zero, since the change is at most the period. -/
theorem InRange.adjust?_eq (h : s.InRange) {period : UInt16} (hperiod : period.toNat < 2 ^ 11) :
    s.adjust? period = some (s.adjust period) := by
  unfold adjust? adjust mutes
  rw [h.target?_eq hperiod, Option.bind_eq_bind, Option.bind_some, ← Bool.or_assoc]
  cases hskip : (decide (s.shift = 0) || decide (period < 8)) with
  | true => rfl
  | false =>
    rw [if_neg Bool.false_ne_true, Bool.false_or]
    by_cases hfits : s.target period ≤ Timer.maxPeriod
    · rw [if_pos hfits, if_neg (by simpa using hfits)]
    · rw [if_neg hfits, if_pos (by simpa using hfits)]

/-- The divider of a sweep is lowered from above zero only. -/
theorem InRange.clock?_eq (h : s.InRange) {period : UInt16} (hperiod : period.toNat < 2 ^ 11) :
    s.clock? period = some (s.clock period) := by
  unfold Sweep.clock? Sweep.clock
  split
  · split
    · rw [h.adjust?_eq hperiod]
      rfl
    · rfl
  · next hcount =>
    have hne : s.divider ≠ 0 := by
      intro h0
      simp [h0] at hcount
    rw [subByte_one hne]
    rfl

end Sweep

/-! ## Pulse channels -/

namespace Pulse

def writeControl? (p : Pulse) (value : UInt8) : Option Pulse := do
  let duty ← shiftRightByte value 6
  some { p with
    duty
    length := { p.length with halt := hasBits value 0x20 }
    envelope := p.envelope.write value }

def writeSweep? (p : Pulse) (value : UInt8) : Option Pulse := do
  let sweep ← p.sweep.write? value
  some { p with sweep }

def writeTimerHigh? (p : Pulse) (value : UInt8) : Option Pulse := do
  let timer ← p.timer.writeHigh? value
  let length ← p.length.load? value
  some { p with timer, length, dutyStep := 0, envelope := p.envelope.restart }

def clockTimer? (p : Pulse) : Option Pulse := do
  let (reloaded, timer) ← p.timer.clock?
  if reloaded then
    let next ← addByte p.dutyStep 1
    some { p with timer, dutyStep := next &&& 0x07 }
  else some { p with timer }

def clockQuarter? (p : Pulse) : Option Pulse := do
  let envelope ← p.envelope.clock? p.length.halt
  some { p with envelope }

def clockHalf? (p : Pulse) : Option Pulse := do
  let length ← p.length.clock?
  let (period, sweep) ← p.sweep.clock? p.timer.period
  some { p with length, timer := { p.timer with period }, sweep }

/-- The level; the waveform is looked up and the sweep's target worked out even when the channel is
silent for another reason. -/
def level? (p : Pulse) : Option UInt8 := do
  let wave ← dutyWaves[p.duty.toNat]?
  let high ← wave[p.dutyStep.toNat]?
  let target ← p.sweep.target? p.timer.period
  some (if p.length.enabled && p.length.running && high
      && !(p.timer.period < 8 || Timer.maxPeriod < target) then p.envelope.level else 0)

theorem writeControl?_eq (p : Pulse) (value : UInt8) :
    p.writeControl? value = some (p.writeControl value) := rfl

theorem writeSweep?_eq (p : Pulse) (value : UInt8) :
    p.writeSweep? value = some (p.writeSweep value) := by
  rw [writeSweep?, Sweep.write?_eq]
  rfl

theorem writeTimerHigh?_eq (p : Pulse) (value : UInt8) :
    p.writeTimerHigh? value = some (p.writeTimerHigh value) := by
  rw [writeTimerHigh?, Timer.writeHigh?_eq, LengthCounter.load?_eq]
  rfl

theorem clockQuarter?_eq (p : Pulse) : p.clockQuarter? = some p.clockQuarter := by
  rw [clockQuarter?, Envelope.clock?_eq]
  rfl

variable {p : Pulse}

/-- The duty has eight steps, so stepping it fits. -/
theorem InRange.clockTimer?_eq (h : p.InRange) : p.clockTimer? = some p.clockTimer := by
  have hnext : addByte p.dutyStep 1 = some (p.dutyStep + 1) :=
    addByte_eq (Nat.lt_of_lt_of_le (Nat.add_lt_add_right h.dutyStep 1) (by decide))
  unfold Pulse.clockTimer? Pulse.clockTimer
  rw [Timer.clock?_eq, hnext]
  cases p.timer.clock with
  | mk reloaded timer => cases reloaded <;> rfl

/-- A half frame clocks the length counter and the sweep. -/
theorem InRange.clockHalf?_eq (h : p.InRange) : p.clockHalf? = some p.clockHalf := by
  rw [clockHalf?, LengthCounter.clock?_eq, h.sweep.clock?_eq h.timer.period]
  rfl

/-- The wave is looked up within the four duties and their eight steps. -/
theorem InRange.level?_eq (h : p.InRange) : p.level? = some p.level := by
  -- both indices are in range, so the lookups find what the wrapped ones find
  have hwave : dutyWaves[p.duty.toNat]? = some dutyWaves[p.duty.toNat % 4] := by
    have hduty : p.duty.toNat < 4 := h.duty
    rw [Vector.getElem?_eq_getElem hduty]
    simp only [Nat.mod_eq_of_lt hduty]
  have hhigh : dutyWaves[p.duty.toNat % 4][p.dutyStep.toNat]? =
      some (dutyHigh p.duty p.dutyStep) := by
    have hstep : p.dutyStep.toNat < 8 := h.dutyStep
    rw [Vector.getElem?_eq_getElem hstep]
    simp only [dutyHigh, Nat.mod_eq_of_lt hstep]
  simp only [level?, hwave, hhigh, h.sweep.target?_eq h.timer.period, Option.bind_eq_bind,
    Option.bind_some]
  rfl

-- out of range there is something to go wrong: no fifth waveform can be looked up
example : ({ powerOn true with duty := 4 } : Pulse).level? = none := by decide

end Pulse

/-! ## The triangle channel -/

namespace LinearCounter

def clock? (keepReloading : Bool) (l : LinearCounter) : Option LinearCounter := do
  let count ←
    (if l.reload then some l.reloadValue else if l.count ≠ 0 then subByte l.count 1 else some 0)
  some { l with count, reload := l.reload && keepReloading }

/-- The linear counter stops at zero before it is lowered. -/
theorem clock?_eq (keepReloading : Bool) (l : LinearCounter) :
    l.clock? keepReloading = some (l.clock keepReloading) := by
  unfold clock? clock
  split
  · rfl
  · split
    · next hne =>
      rw [subByte_one hne]
      rfl
    · rfl

end LinearCounter

namespace Triangle

def writeTimerHigh? (t : Triangle) (value : UInt8) : Option Triangle := do
  let timer ← t.timer.writeHigh? value
  let length ← t.length.load? value
  some { t with timer, length, linear := { t.linear with reload := true } }

def clockTimer? (t : Triangle) : Option Triangle := do
  let (reloaded, timer) ← t.timer.clock?
  if reloaded && t.advancing then
    let next ← addByte t.step 1
    some { t with timer, step := next &&& 0x1F }
  else some { t with timer }

def clockQuarter? (t : Triangle) : Option Triangle := do
  let linear ← t.linear.clock? t.length.halt
  some { t with linear }

def clockHalf? (t : Triangle) : Option Triangle := do
  let length ← t.length.clock?
  some { t with length }

/-- The level; the wave is looked up even when the channel is silent. -/
def level? (t : Triangle) : Option UInt8 := do
  let wave ← triangleWave[t.step.toNat]?
  some (if t.length.enabled && t.length.running && t.linear.count != 0 && 2 ≤ t.timer.period then
    wave else 0)

theorem writeTimerHigh?_eq (t : Triangle) (value : UInt8) :
    t.writeTimerHigh? value = some (t.writeTimerHigh value) := by
  rw [writeTimerHigh?, Timer.writeHigh?_eq, LengthCounter.load?_eq]
  rfl

theorem clockQuarter?_eq (t : Triangle) : t.clockQuarter? = some t.clockQuarter := by
  rw [clockQuarter?, LinearCounter.clock?_eq]
  rfl

theorem clockHalf?_eq (t : Triangle) : t.clockHalf? = some t.clockHalf := by
  rw [clockHalf?, LengthCounter.clock?_eq]
  rfl

variable {t : Triangle}

/-- The wave has thirty-two steps, so stepping it fits. -/
theorem InRange.clockTimer?_eq (h : t.InRange) : t.clockTimer? = some t.clockTimer := by
  have hnext : addByte t.step 1 = some (t.step + 1) :=
    addByte_eq (Nat.lt_of_lt_of_le (Nat.add_lt_add_right h.step 1) (by decide))
  unfold Triangle.clockTimer? Triangle.clockTimer
  rw [Timer.clock?_eq, hnext]
  cases t.timer.clock with
  | mk reloaded timer =>
    dsimp only [Option.bind_eq_bind, Option.bind_some]
    cases reloaded && t.advancing <;> rfl

/-- The step is within the table. -/
theorem InRange.level?_eq (h : t.InRange) : t.level? = some t.level := by
  have hwave : triangleWave[t.step.toNat]? = some triangleWave[t.step.toNat % 32] := by
    have hstep : t.step.toNat < 32 := h.step
    rw [Vector.getElem?_eq_getElem hstep]
    simp only [Nat.mod_eq_of_lt hstep]
  rw [level?, hwave]
  rfl

end Triangle

/-! ## The noise channel -/

namespace Noise

def writePeriod? (n : Noise) (value : UInt8) : Option Noise := do
  let period ← noisePeriods[(value &&& 0x0F).toNat]?
  some { n with shortMode := hasBits value 0x80, timer := { n.timer with period } }

def writeLength? (n : Noise) (value : UInt8) : Option Noise := do
  let length ← n.length.load? value
  some { n with length, envelope := n.envelope.restart }

def feedback? (shortMode : Bool) (shift : UInt16) : Option UInt16 := do
  let tap ← shiftRightWord shift (if shortMode then 6 else 1)
  let rest ← shiftRightWord shift 1
  let top ← shiftLeftWord ((shift ^^^ tap) &&& 1) 14
  some (rest ||| top)

def clockTimer? (n : Noise) : Option Noise := do
  let (reloaded, timer) ← n.timer.clock?
  let shift ← (if reloaded then feedback? n.shortMode n.shift else some n.shift)
  some { n with timer, shift }

def clockQuarter? (n : Noise) : Option Noise := do
  let envelope ← n.envelope.clock? n.length.halt
  some { n with envelope }

def clockHalf? (n : Noise) : Option Noise := do
  let length ← n.length.clock?
  some { n with length }

theorem writePeriod?_eq (n : Noise) (value : UInt8) :
    n.writePeriod? value = some (n.writePeriod value) := by
  have hdigit : (value &&& 0x0F).toNat = (lowDigit value).val := by
    rw [UInt8.toNat_and]
    exact Nat.and_two_pow_sub_one_eq_mod value.toNat 4
  rw [writePeriod?, hdigit, Vector.getElem?_eq_getElem (lowDigit value).isLt]
  rfl

theorem writeLength?_eq (n : Noise) (value : UInt8) :
    n.writeLength? value = some (n.writeLength value) := by
  rw [writeLength?, LengthCounter.load?_eq]
  rfl

/-- The shifts of the feedback are by fixed amounts. -/
theorem feedback?_eq (shortMode : Bool) (shift : UInt16) :
    feedback? shortMode shift = some (feedback shortMode shift) := by
  cases shortMode <;> rfl

/-- The noise timer shifts by fixed amounts and overflows nowhere. -/
theorem clockTimer?_eq (n : Noise) : n.clockTimer? = some n.clockTimer := by
  unfold clockTimer? clockTimer
  rw [Timer.clock?_eq, feedback?_eq]
  cases n.timer.clock with
  | mk reloaded timer => cases reloaded <;> rfl

theorem clockQuarter?_eq (n : Noise) : n.clockQuarter? = some n.clockQuarter := by
  rw [clockQuarter?, Envelope.clock?_eq]
  rfl

theorem clockHalf?_eq (n : Noise) : n.clockHalf? = some n.clockHalf := by
  rw [clockHalf?, LengthCounter.clock?_eq]
  rfl

end Noise

/-! ## The sequencer -/

namespace Sequencer

def advance? (s : Sequencer) : Option (Beat × Sequencer) := do
  let step ← addByte (s.step % (if s.fiveStep then 5 else 4)) 1
  let raised := !s.fiveStep && step == 4 && !s.irqInhibit
  some (beatAt s.fiveStep step, { s with step, irqFlag := s.irqFlag || raised })

/-- The step is folded into the cycle before it is raised, so the byte has room for it. -/
theorem advance?_eq (s : Sequencer) : s.advance? = some s.advance := by
  have hstep : (s.step % (if s.fiveStep then 5 else 4)).toNat < 5 := by
    cases s.fiveStep with
    | true => exact s.step.toNat_mod_lt (by decide)
    | false => exact Nat.lt_trans (s.step.toNat_mod_lt (by decide)) (by decide)
  rw [advance?, addByte_eq (Nat.lt_of_lt_of_le (Nat.add_lt_add_right hstep 1) (by decide))]
  rfl

end Sequencer

end Famicom.Sound
