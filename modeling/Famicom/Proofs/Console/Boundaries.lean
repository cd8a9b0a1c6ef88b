import Famicom.Proofs.Console.FrameDivision
import Famicom.Proofs.Console.Metered
import Mathlib.Logic.Function.Iterate

/-!
# The boundaries of a frame

A frame ends sequencer steps and scanlines at cycles that its length need not be a multiple of, and
instructions end where they like.  One of them may run over several boundaries, and several
boundaries may lie at one cycle.  The frame clock holds no more than how many have been passed.
Firing the events makes up what it is behind the position, and sends the devices as many calls as
that takes.

* `iterate_of_due` — a loop that fires while something is due fires as often as it is behind.
* `Metered.iterate_passStep`, `Metered.iterate_passLine` — passing any number of boundaries.
* `fireFrameEvents_eq`, `Metered.fireFrameEvents_eq` — the console after its events, and the calls.
* `Paced.firesOnTime`, `Paced.fireFrameEvents` — a clock that is not ahead of the position.
-/

namespace Famicom.Console

/-! ## Loops that fire what is due -/

/-- A loop that fires while the next of `parts` boundaries has been reached, where `passed` counts
those that have been fired. -/
theorem iterate_of_due {α : Type} {loop : Nat → α → α} {fire : α → α} (I : α → Prop)
    (passed : α → Nat) {cycles parts position : Nat} (hzero : ∀ x, loop 0 x = x)
    (hsucc : ∀ left x, I x → loop (left + 1) x =
      if boundary cycles parts (passed x + 1) ≤ position then loop left (fire x) else x)
    (hfire : ∀ x, I x → I (fire x) ∧ passed (fire x) = passed x + 1) {x : α} (hx : I x) :
    loop (parts - passed x) x = fire^[endedParts cycles parts position - passed x] x := by
  have hparts : endedParts cycles parts position ≤ parts := endedParts_le ..
  generalize hleft : parts - passed x = left
  -- on what the count has to its end, which bounds the loop
  induction left generalizing x with
  | zero =>
    have hnone : endedParts cycles parts position - passed x = 0 := by omega
    rw [hzero, hnone]
    rfl
  | succ left ih =>
    obtain ⟨hnext, hcount⟩ := hfire x hx
    -- while boundaries are left, the next one is reached just if the count is behind
    have hdue : passed x + 1 ≤ endedParts cycles parts position ↔
        boundary cycles parts (passed x + 1) ≤ position :=
      le_endedParts_iff (Nat.le_add_left 1 _) (by omega)
    rw [hsucc left x hx]
    by_cases hreached : boundary cycles parts (passed x + 1) ≤ position
    · have hlow := hdue.mpr hreached
      have hmore : endedParts cycles parts position - passed x =
          endedParts cycles parts position - passed (fire x) + 1 := by omega
      rw [if_pos hreached, ih hnext (by omega), hmore, Function.iterate_succ_apply]
    · have hnone : endedParts cycles parts position - passed x = 0 := by
        have hhigh := mt hdue.mp hreached
        omega
      rw [if_neg hreached, hnone]
      rfl

/-! ## Passing boundaries -/

/-- The console after the ends of `n` sequencer steps. -/
def afterSteps (n : Nat) (c : Console) : Console :=
  { c with
    clock := { c.clock with steps := c.clock.steps + n }
    bus := { c.bus with apu := Sound.Apu.stepSequencer^[n] c.bus.apu }
    totals := { c.totals with sequencerSteps := c.totals.sequencerSteps + UInt64.ofNat n } }

/-- Of the next `n` scanlines, how many clock the board. -/
def clocking (c : Console) (n : Nat) : Nat :=
  (List.range' c.clock.lines n).countP (lineClocks c.settings)

/-- The console after the ends of `n` scanlines. -/
def afterLines (n : Nat) (c : Console) : Console :=
  { c with
    clock := { c.clock with lines := c.clock.lines + n }
    bus := { c.bus with
      cartridge := c.bus.cartridge.map Cartridge.clockScanline^[c.clocking n] }
    totals := { c.totals with
      scanlines := c.totals.scanlines + UInt64.ofNat (c.clocking n) } }

theorem afterLines_zero (c : Console) : c.afterLines 0 = c := by
  have hcartridge : c.bus.cartridge.map Cartridge.clockScanline^[0] = c.bus.cartridge :=
    Option.map_id'
  have htotal : c.totals.scanlines + UInt64.ofNat 0 = c.totals.scanlines := UInt64.add_zero _
  have hnone : c.clocking 0 = 0 := rfl
  rw [afterLines, hnone, hcartridge, htotal]
  rfl

/-- One scanline more, which clocks the board if it is visible or the last. -/
theorem clocking_succ (c : Console) (n : Nat) :
    c.clocking (n + 1) =
      c.clocking n + if lineClocks c.settings (c.clock.lines + n) then 1 else 0 := by
  rw [clocking, clocking, List.range'_1_concat, List.countP_append, List.countP_singleton]

/-- Of the scanlines up to one, those before the present one and those from there on clock the board
apart. -/
theorem clockingLines_add {c : Console}
    (hvisible : c.settings.visibleScanlines.toNat < c.settings.scanlinesPerFrame.toNat) {n : Nat}
    (hle : c.clock.lines + n ≤ c.settings.scanlinesPerFrame.toNat) :
    clockingLines c.settings (c.clock.lines + n) =
      clockingLines c.settings c.clock.lines + c.clocking n := by
  induction n with
  | zero => rfl
  | succ n ih =>
    have hlt : c.clock.lines + n < c.settings.scanlinesPerFrame.toNat := hle
    rw [← Nat.add_assoc, clockingLines_succ hvisible hlt, ih (Nat.le_of_lt hlt), clocking_succ,
      Nat.add_assoc]

/-- Scanlines end one after the other. -/
theorem passLine_afterLines (n : Nat) (c : Console) :
    (c.afterLines n).passLine = c.afterLines (n + 1) := by
  have hcount : c.clocking (n + 1) = c.clocking n +
      if lineClocks (c.afterLines n).settings (c.afterLines n).clock.lines then 1 else 0 :=
    c.clocking_succ n
  unfold passLine
  dsimp only
  -- a scanline that does not clock the board only moves the clock
  split
  · next hclocks =>
    rw [if_pos hclocks] at hcount
    have hcartridge : (c.bus.cartridge.map Cartridge.clockScanline^[c.clocking n]).map
        Cartridge.clockScanline =
          c.bus.cartridge.map Cartridge.clockScanline^[c.clocking n + 1] := by
      rw [Option.map_map, Function.iterate_succ']
    rw [afterLines, afterLines, hcount, ← hcartridge, UInt64.ofNat_add, ← UInt64.add_assoc]
    rfl
  · next hquiet =>
    rw [if_neg hquiet] at hcount
    rw [afterLines, afterLines, hcount]
    rfl

namespace Metered

/-- Pass the end of one sequencer step. -/
def passStep (m : Metered) : Metered :=
  (m.change fun c => { c with clock := { c.clock with steps := c.clock.steps + 1 } }).stepSequencer

/-- Steps end one after the other, and the sequencer gets a call for each. -/
theorem iterate_passStep (n : Nat) (m : Metered) :
    passStep^[n] m = ⟨m.console.afterSteps n,
      { m.meter with sequencerSteps := m.meter.sequencerSteps + n }⟩ := by
  induction n with
  | zero =>
    have htotal : m.console.totals.sequencerSteps + UInt64.ofNat 0 =
        m.console.totals.sequencerSteps := UInt64.add_zero _
    rw [afterSteps, htotal]
    rfl
  | succ n ih =>
    rw [Function.iterate_succ_apply', ih, afterSteps, afterSteps, Function.iterate_succ_apply',
      UInt64.ofNat_add, ← UInt64.add_assoc]
    rfl

/-- So do scanlines. -/
theorem iterate_passLine_console (n : Nat) (m : Metered) :
    (Metered.passLine^[n] m).console = m.console.afterLines n := by
  induction n with
  | zero => exact m.console.afterLines_zero.symm
  | succ n ih => rw [Function.iterate_succ_apply', passLine_console, ih, passLine_afterLines]

theorem send_hasProgram (f : Cartridge → Cartridge) (note : Meter → Meter) (m : Metered) :
    (m.send f note).console.hasProgram = m.console.hasProgram := by
  rw [send_console]
  exact Option.isSome_map

/-- A cartridge that is there gets the call. -/
theorem send_meter (f : Cartridge → Cartridge) (note : Meter → Meter) {m : Metered}
    (h : m.console.hasProgram) : (m.send f note).meter = note m.meter := by
  unfold send
  cases hc : m.console.bus.cartridge with
  | some c => rfl
  | none =>
    rw [hasProgram, hc] at h
    cases h

/-- As long as there is a cartridge, it gets the scanline, if that clocks the board. -/
theorem passLine_meter {m : Metered} (h : m.console.hasProgram) :
    m.passLine.meter = { m.meter with
      scanlines := m.meter.scanlines +
        if lineClocks m.console.settings m.console.clock.lines then 1 else 0 } := by
  unfold passLine
  dsimp only [change]
  split
  · exact send_meter _ _ h
  · rfl

/-- The cartridge gets as many calls as there are scanlines that clock the board. -/
theorem iterate_passLine_meter (n : Nat) {m : Metered} (h : m.console.hasProgram) :
    (Metered.passLine^[n] m).meter =
      { m.meter with scanlines := m.meter.scanlines + m.console.clocking n } := by
  induction n with
  | zero => rfl
  | succ n ih =>
    have hconsole := iterate_passLine_console n m
    have hpresent : (m.console.afterLines n).hasProgram := Option.isSome_map.trans h
    rw [Function.iterate_succ_apply', passLine_meter (hconsole ▸ hpresent), ih, hconsole,
      clocking_succ, ← Nat.add_assoc]
    rfl

end Metered

/-! ## Firing the events -/

/-- The sequencer steps of the frame that have ended at the present position. -/
def endedSteps (c : Console) : Nat :=
  endedParts c.settings.cyclesPerFrame.toNat c.settings.sequencerStepsPerFrame.toNat
    c.clock.position

/-- The scanlines of the frame that have ended at the present position. -/
def endedLines (c : Console) : Nat :=
  endedParts c.settings.cyclesPerFrame.toNat c.settings.scanlinesPerFrame.toNat c.clock.position

/-- The sequencer steps that are passed when the events are fired. -/
def stepsDue (c : Console) : Nat := c.endedSteps - c.clock.steps

/-- The scanlines that are passed when the events are fired. -/
def linesDue (c : Console) : Nat :=
  if c.settings.synthesizeScanlines then c.endedLines - c.clock.lines else 0

namespace Metered

variable (m : Metered)

/-- Passing boundaries changes neither how the frame is divided nor the position. -/
def SamePosition (x : Metered) : Prop :=
  x.console.settings = m.console.settings ∧ x.console.clock.position = m.console.clock.position

/-- The loop over the sequencer steps, in closed form. -/
theorem fireSteps_eq :
    m.fireSteps (m.console.settings.sequencerStepsPerFrame.toNat - m.console.clock.steps) =
      passStep^[m.console.stepsDue] m := by
  refine iterate_of_due m.SamePosition (fun x => x.console.clock.steps) (fun _ => rfl) ?_ ?_
    ⟨rfl, rfl⟩
  · rintro left x ⟨hsettings, hposition⟩
    rw [fireSteps, stepDue, hsettings, hposition]
    simp only [decide_eq_true_iff]
    rfl
  · exact fun x hx => ⟨hx, rfl⟩

/-- The loop over the scanlines, in closed form. -/
theorem fireLines_eq :
    m.fireLines (m.console.settings.scanlinesPerFrame.toNat - m.console.clock.lines) =
      Metered.passLine^[m.console.endedLines - m.console.clock.lines] m := by
  refine iterate_of_due m.SamePosition (fun x => x.console.clock.lines) (fun _ => rfl) ?_ ?_
    ⟨rfl, rfl⟩
  · rintro left x ⟨hsettings, hposition⟩
    rw [fireLines, lineDue, hsettings, hposition]
    simp only [decide_eq_true_iff]
  · rintro x ⟨hsettings, hposition⟩
    have hpassed : x.passLine.console = x.console.afterLines 1 := iterate_passLine_console 1 x
    unfold SamePosition
    rw [hpassed]
    exact ⟨⟨hsettings, hposition⟩, rfl⟩

/-- Firing the events passes as many boundaries of each kind as the clock is behind. -/
theorem fireFrameEvents_iterate :
    m.fireFrameEvents =
      Metered.passLine^[m.console.linesDue] (passStep^[m.console.stepsDue] m) := by
  have hlines := fireLines_eq (passStep^[m.console.stepsDue] m)
  unfold Metered.fireFrameEvents linesDue
  dsimp only
  rw [fireSteps_eq, iterate_passStep] at *
  -- the steps leave alone what the scanlines depend on
  change (if m.console.settings.synthesizeScanlines then _ else _) = _
  split
  · exact hlines
  · rfl

end Metered

/-- The console after its events. -/
theorem fireFrameEvents_eq (c : Console) :
    c.fireFrameEvents = (c.afterSteps c.stepsDue).afterLines c.linesDue := by
  rw [← Metered.fireFrameEvents_console ⟨c, {}⟩, Metered.fireFrameEvents_iterate,
    Metered.iterate_passLine_console, Metered.iterate_passStep]

/-- The clock after the events. -/
theorem fireFrameEvents_clock (c : Console) :
    c.fireFrameEvents.clock = { c.clock with
      steps := c.clock.steps + c.stepsDue
      lines := c.clock.lines + c.linesDue } := by
  rw [fireFrameEvents_eq]
  rfl

/-- The calls that the devices get. -/
theorem Metered.fireFrameEvents_eq {m : Metered} (h : m.console.hasProgram) :
    m.fireFrameEvents = ⟨m.console.fireFrameEvents,
      { m.meter with
        sequencerSteps := m.meter.sequencerSteps + m.console.stepsDue
        scanlines := m.meter.scanlines + m.console.clocking m.console.linesDue }⟩ := by
  have hmeter : m.fireFrameEvents.meter = { m.meter with
      sequencerSteps := m.meter.sequencerSteps + m.console.stepsDue
      scanlines := m.meter.scanlines + m.console.clocking m.console.linesDue } := by
    rw [fireFrameEvents_iterate, iterate_passStep]
    exact iterate_passLine_meter m.console.linesDue
      (m := ⟨m.console.afterSteps m.console.stepsDue, _⟩) h
  rw [← fireFrameEvents_console, ← hmeter]

/-! ## Keeping up with the position -/

/-- The frame clock is not ahead of the position, and the frame is overrun by at most one
instruction. -/
structure Paced (c : Console) : Prop where
  valid : c.settings.Valid
  steps : c.clock.steps ≤ c.endedSteps
  lines : c.clock.lines ≤ c.endedLines
  overrun : c.clock.position ≤ c.settings.cyclesPerFrame.toNat + 14

/-- What firing the events sends to the devices. -/
def fireCalls (c : Console) : Meter := (Metered.fireFrameEvents ⟨c, {}⟩).meter

/-- Firing the events at `c` brings the clock up to the position, and sends the devices one call for
each boundary that is passed, but none for the scanlines that do not clock the board. -/
structure FiresOnTime (c : Console) : Prop where
  steps : c.fireFrameEvents.clock.steps = c.endedSteps
  lines : c.settings.synthesizeScanlines → c.fireFrameEvents.clock.lines = c.endedLines
  unsynthesized : c.settings.synthesizeScanlines = false →
    c.fireFrameEvents.clock.lines = c.clock.lines
  onward : c.clock.steps ≤ c.fireFrameEvents.clock.steps ∧
    c.clock.lines ≤ c.fireFrameEvents.clock.lines
  calls : c.fireCalls =
    { sequencerSteps := c.fireFrameEvents.clock.steps - c.clock.steps
      scanlines := c.clocking (c.fireFrameEvents.clock.lines - c.clock.lines) }
  devices : c.fireFrameEvents.bus =
    { c.bus with
      apu := Sound.Apu.stepSequencer^[c.fireCalls.sequencerSteps] c.bus.apu
      cartridge := c.bus.cartridge.map Cartridge.clockScanline^[c.fireCalls.scanlines] }

/-- Firing the events changes neither how the frame is divided nor the position. -/
theorem fireFrameEvents_place (c : Console) : c.fireFrameEvents.settings = c.settings ∧
    c.fireFrameEvents.clock.position = c.clock.position := by
  rw [fireFrameEvents_eq]
  exact ⟨rfl, rfl⟩

/-- Firing the events does not change what has ended by then. -/
theorem ended_fireFrameEvents (c : Console) : c.fireFrameEvents.endedSteps = c.endedSteps ∧
    c.fireFrameEvents.endedLines = c.endedLines := by
  obtain ⟨hsettings, hposition⟩ := c.fireFrameEvents_place
  unfold endedSteps endedLines
  rw [hsettings, hposition]
  exact ⟨rfl, rfl⟩

namespace Paced

variable {c : Console} (h : Paced c)

include h

/-- Firing the events makes up for all the steps that have ended. -/
theorem steps_fired : c.fireFrameEvents.clock.steps = c.endedSteps := by
  rw [fireFrameEvents_clock]
  exact Nat.add_sub_cancel' h.steps

/-- It makes up for all the scanlines that have ended. -/
theorem lines_fired (hsynthesize : c.settings.synthesizeScanlines) :
    c.fireFrameEvents.clock.lines = c.endedLines := by
  rw [fireFrameEvents_clock, linesDue, if_pos hsynthesize]
  exact Nat.add_sub_cancel' h.lines

omit h in
/-- Scanlines that are not synthesized do not pass. -/
theorem lines_unsynthesized (hnot : c.settings.synthesizeScanlines = false) :
    c.fireFrameEvents.clock.lines = c.clock.lines := by
  rw [fireFrameEvents_clock, linesDue, hnot]
  rfl

/-- A clock that is not ahead is brought up to the position, by the calls that this takes. -/
theorem firesOnTime (hpresent : c.hasProgram) : FiresOnTime c := by
  have hcalls : c.fireCalls =
      { sequencerSteps := c.stepsDue, scanlines := c.clocking c.linesDue } := by
    rw [fireCalls, Metered.fireFrameEvents_eq hpresent]
    simp only [Nat.zero_add]
  have hclock := c.fireFrameEvents_clock
  constructor
  case steps => exact h.steps_fired
  case lines => exact h.lines_fired
  case unsynthesized => exact lines_unsynthesized
  case onward =>
    rw [hclock]
    exact ⟨Nat.le_add_right .., Nat.le_add_right ..⟩
  case calls => rw [hcalls, hclock, Nat.add_sub_cancel_left, Nat.add_sub_cancel_left]
  case devices =>
    rw [hcalls, fireFrameEvents_eq]
    rfl

/-- **One firing.**  It leaves a clock that is not ahead again. -/
theorem fireFrameEvents : Paced c.fireFrameEvents := by
  obtain ⟨hsettings, hposition⟩ := c.fireFrameEvents_place
  obtain ⟨hsteps, hlines⟩ := c.ended_fireFrameEvents
  constructor
  case valid => exact hsettings ▸ h.valid
  case steps => exact Nat.le_of_eq (h.steps_fired.trans hsteps.symm)
  case lines =>
    rw [hlines]
    by_cases hsynthesize : c.settings.synthesizeScanlines
    · exact Nat.le_of_eq (h.lines_fired hsynthesize)
    · rw [lines_unsynthesized (Bool.eq_false_iff.mpr hsynthesize)]
      exact h.lines
  case overrun =>
    rw [hsettings, hposition]
    exact h.overrun

end Paced

end Famicom.Console
