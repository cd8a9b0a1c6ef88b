import Famicom.Proofs.Console.Boundaries

/-!
# What happens in a frame

Each sequencer step and, if the host wants them, each scanline is passed once, after the instruction
that reaches its end.  Instructions do not end where a frame ends: what runs over is carried into
the next frame.

The meter is followed through a frame in two halves.  `Elapsed` says of the time since the start of
the frame that the clock, the processor, the console and the meter agree on it.  `Fired` says that
the clock and the meter agree on the events, and that none is left over at the end.

* `Metered.step_ok`, `Metered.step_error` — a step and the meter.
* `Metered.runCycles_keeps`, `Metered.runCycles_reaches` — the instructions of a frame.
* `Metered.runFrame_elapsed`, `Metered.runFrame_fired` — frames.
-/

namespace Famicom.Console

namespace Metered

/-! ## Steps and the meter -/

/-- As long as there is a cartridge, it gets every tick. -/
theorem ticks_eq (n : Nat) {m : Metered} (h : m.console.hasProgram) :
    m.ticks n = ⟨{ m.console with bus := m.console.bus.tick n },
      { m.meter with ticks := m.meter.ticks + n }⟩ := by
  have hmeter : (m.ticks n).meter = { m.meter with ticks := m.meter.ticks + n } := by
    induction n generalizing m with
    | zero => rfl
    | succ n ih =>
      have hpresent : m.tick.console.hasProgram := (send_hasProgram ..).trans h
      have htick : m.tick.meter = { m.meter with ticks := m.meter.ticks + 1 } := send_meter _ _ h
      rw [ticks, ih hpresent, htick, Nat.add_assoc, Nat.add_comm 1 n]
  rw [← ticks_console, ← hmeter]

theorem afterInstruction_eq {m : Metered} (h : m.console.hasProgram) :
    m.afterInstruction = ⟨m.console.afterInstruction,
      { m.meter with ticks := m.meter.ticks + m.console.instructionCycles }⟩ := by
  have hframe := SameFrame.exec (Exec.respects_step Bus.present_closed.congruence.1) m.console
  have hticks := ticks_eq (m := ⟨(execOn Exec.step m.console).2, m.meter⟩)
    m.console.instructionCycles (hframe.present h)
  exact congrArg (change fun c : Console =>
    { c with totals := { c.totals with cpuSteps := c.totals.cpuSteps + 1 } }) hticks

/-- Every cycle of the instruction and of the interrupt reaches the cartridge. -/
theorem step_running {m : Metered} (h : m.console.hasProgram) (hhalt : m.console.cpu.halt = none) :
    m.step =
      match m.console.afterInstruction.cpu.halt with
      | some halt => (.error (.halted halt), ⟨(reportHalt halt m.console.afterInstruction).2,
          { m.meter with ticks := m.meter.ticks + m.console.instructionCycles }⟩)
      | none =>
        let (extra, d) := takeInterrupts m.console.afterInstruction
        (.ok (m.console.instructionCycles + extra), ⟨{ d with
            bus := d.bus.tick extra
            totals := { d.totals with
              cpuCycles := d.totals.cpuCycles +
                UInt64.ofNat (m.console.instructionCycles + extra) } },
          { m.meter with ticks := m.meter.ticks + m.console.instructionCycles + extra }⟩) := by
  obtain ⟨hinstruction, -, -⟩ := afterInstruction_cost hhalt
  obtain ⟨hinterrupt, -⟩ := takeInterrupts_cost m.console.afterInstruction
  have hpresent := (hinstruction.trans hinterrupt).frame.present h
  rw [step, h, hhalt, afterInstruction_eq h]
  dsimp only
  cases m.console.afterInstruction.cpu.halt with
  | some halt => rfl
  | none =>
    rcases hextra : takeInterrupts m.console.afterInstruction with ⟨extra, d⟩
    rw [hextra] at hpresent
    have hticks := ticks_eq extra (m := ⟨d,
      { m.meter with ticks := m.meter.ticks + m.console.instructionCycles }⟩) hpresent
    dsimp only
    rw [hticks]
    rfl

/-- A step of `n` cycles leads from `m` to `m'`. -/
structure Stepped (n : Nat) (m m' : Metered) : Prop where
  frame : SameFrame m.console m'.console
  present : m'.console.hasProgram
  spent : m'.console.cpu.totalCycles = m.console.cpu.totalCycles + UInt64.ofNat n
  counted : m'.console.totals.cpuCycles = m.console.totals.cpuCycles + UInt64.ofNat n
  meter : m'.meter = { m.meter with ticks := m.meter.ticks + n }
  slow : 2 ≤ n
  fast : n ≤ 15

/-- A step that ends well has taken from two to fifteen cycles, and everything has counted them. -/
theorem step_ok {n : Nat} {m m' : Metered} (h : m.step = (.ok n, m')) : Stepped n m m' := by
  cases hprogram : m.console.hasProgram with
  | false =>
    rw [step, hprogram] at h
    cases h
  | true =>
    cases hhalt : m.console.cpu.halt with
    | some halt =>
      rw [step, hprogram, hhalt] at h
      cases h
    | none =>
      -- two to eight cycles for the instruction, none or seven for an interrupt
      obtain ⟨hinstruction, hslow, hfast⟩ := afterInstruction_cost hhalt
      obtain ⟨hinterrupt, hle⟩ := takeInterrupts_cost m.console.afterInstruction
      rw [step_running hprogram hhalt] at h
      rcases hextra : takeInterrupts m.console.afterInstruction with ⟨extra, d⟩
      rw [hextra] at h hinterrupt hle
      have hcost := hinstruction.trans hinterrupt
      have hpresent := hcost.frame.present hprogram
      dsimp only at hle
      cases hjam : m.console.afterInstruction.cpu.halt with
      | some halt =>
        rw [hjam] at h
        cases h
      | none =>
        rw [hjam] at h
        cases h
        constructor
        case frame =>
          exact ⟨hcost.frame.clock, hcost.frame.settings, fun _ => Option.isSome_map.trans hpresent⟩
        case present => exact Option.isSome_map.trans hpresent
        case spent => exact hcost.spent
        case counted => exact congrArg (· + UInt64.ofNat _) hcost.uncounted
        case meter => rw [Nat.add_assoc]
        case slow => omega
        case fast => omega

/-- A step that ends in an error leaves a jammed processor, if there is a program. -/
structure Failed (m m' : Metered) : Prop where
  frame : SameFrame m.console m'.console
  jammed : m.console.hasProgram → m'.console.cpu.halt.isSome

/-- A step that fails moves no clock. -/
theorem step_error {e : Error} {m m' : Metered} (h : m.step = (.error e, m')) : Failed m m' := by
  cases hprogram : m.console.hasProgram with
  | false =>
    rw [step, hprogram] at h
    cases h
    exact ⟨.refl _, fun hpresent => absurd hpresent (Bool.eq_false_iff.mp hprogram)⟩
  | true =>
    cases hhalt : m.console.cpu.halt with
    | some halt =>
      rw [step, hprogram, hhalt] at h
      cases h
      exact ⟨.refl _, fun _ => Option.isSome_iff_exists.mpr ⟨halt, hhalt⟩⟩
    | none =>
      obtain ⟨hinstruction, -, -⟩ := afterInstruction_cost hhalt
      rw [step_running hprogram hhalt] at h
      cases hjam : m.console.afterInstruction.cpu.halt with
      | some halt =>
        rw [hjam] at h
        cases h
        refine ⟨hinstruction.frame.trans (.reportHalt halt _), fun _ => ?_⟩
        rw [reportHalt_cpu, hjam]
        rfl
      | none =>
        rw [hjam] at h
        cases h

/-! ## Time in a frame -/

/-- Since `start`, `cycles` cycles have passed for the frame clock, the processor, the console and
the cartridge alike. -/
structure Elapsed (cycles : Nat) (start m : Metered) : Prop where
  settings : m.console.settings = start.console.settings
  present : m.console.hasProgram
  position : m.console.clock.position = start.console.clock.position + cycles
  spent : m.console.cpu.totalCycles = start.console.cpu.totalCycles + UInt64.ofNat cycles
  counted : m.console.totals.cpuCycles = start.console.totals.cpuCycles + UInt64.ofNat cycles
  ticks : m.meter.ticks = start.meter.ticks + cycles

namespace Elapsed

variable {cycles n : Nat} {start m m' : Metered}

theorem refl (h : m.console.hasProgram) : Elapsed 0 m m :=
  ⟨rfl, h, rfl, (UInt64.add_zero _).symm, (UInt64.add_zero _).symm, rfl⟩

theorem step (h : Elapsed cycles start m) (k : Stepped n m m') :
    Elapsed (cycles + n) start (m'.change (·.advanceClock n)) where
  settings := k.frame.settings.trans h.settings
  present := k.present
  position := by
    have hclock : m'.console.clock.position = m.console.clock.position :=
      congrArg FrameProgress.position k.frame.clock
    exact (congrArg (· + n) (hclock.trans h.position)).trans (Nat.add_assoc ..)
  spent := by
    rw [UInt64.ofNat_add, ← UInt64.add_assoc, ← h.spent]
    exact k.spent
  counted := by
    rw [UInt64.ofNat_add, ← UInt64.add_assoc, ← h.counted]
    exact k.counted
  ticks := by
    have hmeter : m'.meter.ticks = m.meter.ticks + n := congrArg Meter.ticks k.meter
    exact hmeter.trans ((congrArg (· + n) h.ticks).trans (Nat.add_assoc ..))

/-- The events take no time. -/
theorem fireFrameEvents (h : Elapsed cycles start m) : Elapsed cycles start m.fireFrameEvents := by
  rw [Metered.fireFrameEvents_eq h.present, Console.fireFrameEvents_eq]
  exact ⟨h.settings, Option.isSome_map.trans h.present, h.position, h.spent, h.counted, h.ticks⟩

end Elapsed

/-! ## Events in a frame -/

/-- Since `start`, with which a frame started, the clock and the meter have seen the same sequencer
steps and scanlines. -/
structure Fired (s : Settings) (start m : Metered) : Prop where
  steps : m.meter.sequencerSteps = start.meter.sequencerSteps + m.console.clock.steps
  steps_le : m.console.clock.steps ≤ s.sequencerStepsPerFrame.toNat
  lines : m.meter.scanlines = start.meter.scanlines + clockingLines s m.console.clock.lines
  lines_le : m.console.clock.lines ≤ s.scanlinesPerFrame.toNat
  unsynthesized : s.synthesizeScanlines = false → m.console.clock.lines = 0

/-- All sequencer steps and scanlines of the frame have been passed. -/
structure Complete (s : Settings) (clock : FrameProgress) : Prop where
  steps : clock.steps = s.sequencerStepsPerFrame.toNat
  lines : s.synthesizeScanlines = true → clock.lines = s.scanlinesPerFrame.toNat

variable {s : Settings} {start m : Metered}

/-- Firing what is due keeps clock and meter together, and at the end of the frame nothing is left
over. -/
theorem Fired.fireFrameEvents (hvisible : s.visibleScanlines.toNat < s.scanlinesPerFrame.toNat)
    (h : Fired s start m) (hs : m.console.settings = s) (hpresent : m.console.hasProgram) :
    Fired s start m.fireFrameEvents ∧
      (s.cyclesPerFrame.toNat ≤ m.console.clock.position →
        Complete s m.fireFrameEvents.console.clock) := by
  subst hs
  -- no firing goes beyond the last boundary of either kind
  have hsteps : m.console.clock.steps + m.console.stepsDue ≤
      m.console.settings.sequencerStepsPerFrame.toNat := by
    have hended : m.console.endedSteps ≤ _ := endedParts_le ..
    have hle := h.steps_le
    unfold stepsDue
    omega
  have hlines : m.console.clock.lines + m.console.linesDue ≤
      m.console.settings.scanlinesPerFrame.toNat := by
    have hended : m.console.endedLines ≤ _ := endedParts_le ..
    have hle := h.lines_le
    unfold linesDue
    split <;> omega
  have hclock := m.console.fireFrameEvents_clock
  rw [Metered.fireFrameEvents_eq hpresent]
  constructor
  · constructor
    case steps =>
      dsimp only
      rw [hclock, h.steps, Nat.add_assoc]
    case steps_le =>
      dsimp only
      rw [hclock]
      exact hsteps
    case lines =>
      dsimp only
      rw [hclock, clockingLines_add hvisible hlines, h.lines, Nat.add_assoc]
    case lines_le =>
      dsimp only
      rw [hclock]
      exact hlines
    case unsynthesized =>
      intro hnot
      dsimp only
      rw [hclock, linesDue, hnot]
      exact h.unsynthesized hnot
  · intro hend
    have hallSteps : m.console.endedSteps = _ := endedParts_of_le hend
    have hallLines : m.console.endedLines = _ := endedParts_of_le hend
    dsimp only
    rw [hclock]
    refine ⟨?_, fun hsynthesize => ?_⟩
    · rw [stepsDue, hallSteps]
      exact Nat.add_sub_cancel' h.steps_le
    · rw [linesDue, if_pos hsynthesize, hallLines]
      exact Nat.add_sub_cancel' h.lines_le

/-! ## The instructions of a frame -/

/-- What every instruction of a frame keeps, with the events after it, holds when the frame is
through, and also where an instruction fails. -/
theorem runCycles_keeps {P : Metered → Prop}
    (hnext : ∀ n m m', P m → m.console.clock.position < m.console.settings.cyclesPerFrame.toNat →
      m.step = (.ok n, m') → P (m'.change (·.advanceClock n)).fireFrameEvents)
    (fuel : Nat) {m : Metered} (hm : P m) :
    (∀ m', m.runCycles fuel = (.ok (), m') → P m') ∧
      ∀ e m', m.runCycles fuel = (.error e, m') →
        ∃ last, P last ∧
          last.console.clock.position < last.console.settings.cyclesPerFrame.toNat ∧
          last.step = (.error e, m') := by
  -- on the fuel; an instruction that fails gives the console it was executed at
  induction fuel generalizing m with
  | zero =>
    unfold runCycles
    constructor
    · intro m' h
      cases h
      exact hm
    · intro e m' h
      cases h
  | succ fuel ih =>
    unfold runCycles
    split
    · next hlt =>
      rcases hstep : m.step with ⟨e | n, m₁⟩
      · constructor
        · intro m' h
          cases h
        · intro e' m' h
          cases h
          exact ⟨m, hm, hlt, hstep⟩
      · exact ih (hnext n m m₁ hm hlt hstep)
    · constructor
      · intro m' h
        cases h
        exact hm
      · intro e m' h
        cases h

/-- Every instruction takes some time, so that as many instructions as the frame has cycles are
enough. -/
theorem runCycles_reaches {fuel : Nat} {m m' : Metered} (hpresent : m.console.hasProgram)
    (hfuel : m.console.settings.cyclesPerFrame.toNat ≤ m.console.clock.position + fuel)
    (h : m.runCycles fuel = (.ok (), m')) :
    m'.console.settings.cyclesPerFrame.toNat ≤ m'.console.clock.position := by
  induction fuel generalizing m with
  | zero =>
    cases h
    exact hfuel
  | succ fuel ih =>
    unfold runCycles at h
    split at h
    · rcases hstep : m.step with ⟨e | n, m₁⟩
      · rw [hstep] at h
        cases h
      · rw [hstep] at h
        have hstepped := step_ok hstep
        have htime := ((Elapsed.refl hpresent).step hstepped).fireFrameEvents
        -- a round takes fuel of one and time of two at least
        refine ih htime.present ?_ h
        rw [htime.settings, htime.position]
        have hslow := hstepped.slow
        omega
    · next hend =>
      cases h
      exact Nat.le_of_not_lt hend

/-! ## Whole frames -/

/-- The time since `start` agrees everywhere, and the frame is overrun by at most one
instruction. -/
structure OnTime (start m : Metered) : Prop where
  elapsed : ∃ cycles, Elapsed cycles start m
  overrun : m.console.clock.position ≤ m.console.settings.cyclesPerFrame.toNat + 14

/-- **One instruction**, with the events after it. -/
theorem OnTime.next {n : Nat} {m' : Metered} (h : OnTime start m)
    (hlt : m.console.clock.position < m.console.settings.cyclesPerFrame.toNat)
    (hstep : m.step = (.ok n, m')) :
    OnTime start (m'.change (·.advanceClock n)).fireFrameEvents := by
  obtain ⟨cycles, helapsed⟩ := h.elapsed
  have hstepped := step_ok hstep
  have hnext := (helapsed.step hstepped).fireFrameEvents
  refine ⟨⟨_, hnext⟩, ?_⟩
  rw [hnext.settings, hnext.position, ← helapsed.settings, ← Nat.add_assoc, ← helapsed.position]
  have hfast := hstepped.fast
  omega

/-- A frame of `cycles` cycles leads from `m` to `m'`. -/
structure FrameRun (cycles : Nat) (m m' : Metered) : Prop where
  settings : m'.console.settings = m.console.settings
  present : m'.console.hasProgram
  reached : m.console.settings.cyclesPerFrame.toNat ≤ m.console.clock.position + cycles
  clock : m'.console.clock =
    { position := m.console.clock.position + cycles - m.console.settings.cyclesPerFrame.toNat }
  carry : m'.console.clock.position ≤ 14
  spent : m'.console.cpu.totalCycles = m.console.cpu.totalCycles + UInt64.ofNat cycles
  counted : m'.console.totals.cpuCycles = m.console.totals.cpuCycles + UInt64.ofNat cycles
  ticks : m'.meter.ticks = m.meter.ticks + cycles

/-- A frame that ends well is a loop that ends well. -/
theorem runFrame_ok {m m' : Metered} (h : m.runFrame = (.ok (), m')) :
    m.console.hasProgram ∧ ∃ last,
      m.runCycles m.console.settings.cyclesPerFrame.toNat = (.ok (), last) ∧
        m' = last.change endFrame := by
  unfold runFrame at h
  cases hpresent : m.console.hasProgram with
  | false =>
    rw [hpresent] at h
    cases h
  | true =>
    rw [hpresent] at h
    rcases hcycles : m.runCycles m.console.settings.cyclesPerFrame.toNat with ⟨e | u, last⟩
    · rw [hcycles] at h
      cases h
    · rw [hcycles] at h
      cases h
      exact ⟨rfl, last, rfl, rfl⟩

/-- A frame that ends well has run its cycles, and what it has overrun is carried over. -/
theorem runFrame_elapsed {m m' : Metered}
    (hcarry : m.console.clock.position ≤ m.console.settings.cyclesPerFrame.toNat + 14)
    (h : m.runFrame = (.ok (), m')) : ∃ cycles, FrameRun cycles m m' := by
  obtain ⟨hpresent, last, hcycles, rfl⟩ := runFrame_ok h
  have hstart : OnTime m m := ⟨⟨0, .refl hpresent⟩, hcarry⟩
  have hreached := runCycles_reaches hpresent (Nat.le_add_left ..) hcycles
  obtain ⟨hkept, -⟩ := runCycles_keeps (P := OnTime m) (fun n m₁ m₂ => OnTime.next) _ hstart
  obtain ⟨⟨cycles, helapsed⟩, hoverrun⟩ := hkept last hcycles
  rw [helapsed.settings] at hreached hoverrun
  have hclock : (last.change endFrame).console.clock =
      { position := m.console.clock.position + cycles -
          m.console.settings.cyclesPerFrame.toNat } := by
    rw [← helapsed.position, ← helapsed.settings]
    rfl
  refine ⟨cycles, ?_⟩
  constructor
  case settings => exact helapsed.settings
  case present => exact helapsed.present
  case reached => exact helapsed.position ▸ hreached
  case clock => exact hclock
  case carry =>
    rw [hclock]
    dsimp only
    rw [helapsed.position] at hoverrun
    omega
  case spent => exact helapsed.spent
  case counted => exact helapsed.counted
  case ticks => exact helapsed.ticks

/-- Clock and meter agree on the events since `start`, and none is left over at the end. -/
structure Followed (s : Settings) (start m : Metered) : Prop where
  settings : m.console.settings = s
  present : m.console.hasProgram
  fired : Fired s start m
  complete : s.cyclesPerFrame.toNat ≤ m.console.clock.position → Complete s m.console.clock

/-- **One instruction**, with the events after it: what is passed is sent. -/
theorem Followed.next (hvisible : s.visibleScanlines.toNat < s.scanlinesPerFrame.toNat)
    {n : Nat} {m' : Metered} (h : Followed s start m) (hstep : m.step = (.ok n, m')) :
    Followed s start (m'.change (·.advanceClock n)).fireFrameEvents := by
  have hstepped := step_ok hstep
  have htime := (Elapsed.refl h.present).step hstepped
  have hfired : Fired s start (m'.change (·.advanceClock n)) := by
    have hclock := hstepped.frame.clock
    have hmeter := hstepped.meter
    constructor
    case steps =>
      dsimp only [change, advanceClock]
      rw [hclock, hmeter]
      exact h.fired.steps
    case steps_le =>
      dsimp only [change, advanceClock]
      rw [hclock]
      exact h.fired.steps_le
    case lines =>
      dsimp only [change, advanceClock]
      rw [hclock, hmeter]
      exact h.fired.lines
    case lines_le =>
      dsimp only [change, advanceClock]
      rw [hclock]
      exact h.fired.lines_le
    case unsynthesized =>
      dsimp only [change, advanceClock]
      rw [hclock]
      exact h.fired.unsynthesized
  have hs := htime.settings.trans h.settings
  obtain ⟨hnext, hcomplete⟩ := hfired.fireFrameEvents hvisible hs htime.present
  have hafter := htime.fireFrameEvents
  refine ⟨hafter.settings.trans h.settings, hafter.present, hnext, fun hend => hcomplete ?_⟩
  rw [htime.position, ← hafter.position]
  exact hend

/-- A frame that starts before its end and ends well passes every sequencer step and every
scanline. -/
theorem runFrame_fired (hvisible : s.visibleScanlines.toNat < s.scanlinesPerFrame.toNat)
    {m m' : Metered} (hs : m.console.settings = s)
    (hsteps : m.console.clock.steps = 0) (hlines : m.console.clock.lines = 0)
    (hlt : m.console.clock.position < s.cyclesPerFrame.toNat) (h : m.runFrame = (.ok (), m')) :
    m'.meter.sequencerSteps = m.meter.sequencerSteps + s.sequencerStepsPerFrame.toNat ∧
      m'.meter.scanlines = m.meter.scanlines +
        if s.synthesizeScanlines then s.visibleScanlines.toNat + 1 else 0 := by
  obtain ⟨hpresent, last, hcycles, rfl⟩ := runFrame_ok h
  have hstart : Followed s m m := by
    refine ⟨hs, hpresent, ?_, fun hend => absurd hlt (Nat.not_lt.mpr hend)⟩
    refine ⟨?_, ?_, ?_, ?_, fun _ => hlines⟩
    · rw [hsteps, Nat.add_zero]
    · rw [hsteps]
      exact Nat.zero_le _
    · rw [hlines, clockingLines_zero hvisible, Nat.add_zero]
    · rw [hlines]
      exact Nat.zero_le _
  have hreached := runCycles_reaches hpresent (Nat.le_add_left ..) hcycles
  obtain ⟨hkept, -⟩ := runCycles_keeps (P := Followed s m)
    (fun n m₁ m₂ hm _ => hm.next hvisible) _ hstart
  have hlast := hkept last hcycles
  rw [hlast.settings] at hreached
  obtain ⟨hallSteps, hallLines⟩ := hlast.complete hreached
  constructor
  · exact hallSteps ▸ hlast.fired.steps
  · refine hlast.fired.lines.trans (congrArg (m.meter.scanlines + ·) ?_)
    split
    · next hyes => rw [hallLines hyes, clockingLines_all hvisible]
    · next hno =>
      rw [hlast.fired.unsynthesized (Bool.eq_false_iff.mpr hno), clockingLines_zero hvisible]

/-- A frame that starts at its end has nothing to run. -/
theorem runFrame_covered {m : Metered} (hpresent : m.console.hasProgram)
    (hcovered : m.console.settings.cyclesPerFrame.toNat ≤ m.console.clock.position) :
    m.runFrame = (.ok (), m.change endFrame) := by
  have hcycles (fuel : Nat) : m.runCycles fuel = (.ok (), m) := by
    cases fuel with
    | zero => rfl
    | succ fuel => exact if_neg (Nat.not_lt.mpr hcovered)
  rw [runFrame, hpresent, hcycles]
  rfl

/-- A frame that ends in an error stops before its end, at an instruction that fails. -/
theorem runFrame_error {e : Error} {m m' : Metered} (hpresent : m.console.hasProgram)
    (hcarry : m.console.clock.position ≤ m.console.settings.cyclesPerFrame.toNat + 14)
    (h : m.runFrame = (.error e, m')) :
    ∃ last, OnTime m last ∧
      last.console.clock.position < last.console.settings.cyclesPerFrame.toNat ∧
      Failed last m' := by
  have hcycles : m.runCycles m.console.settings.cyclesPerFrame.toNat = (.error e, m') := by
    rw [runFrame, hpresent] at h
    rcases hcycles : m.runCycles m.console.settings.cyclesPerFrame.toNat with ⟨e' | u, last⟩
    · rw [hcycles] at h
      exact h
    · rw [hcycles] at h
      cases h
  have hstart : OnTime m m := ⟨⟨0, .refl hpresent⟩, hcarry⟩
  obtain ⟨-, hfailed⟩ := runCycles_keeps (P := OnTime m) (fun n m₁ m₂ => OnTime.next) _ hstart
  obtain ⟨last, hlast, hlt, hstep⟩ := hfailed e m' hcycles
  exact ⟨last, hlast, hlt, step_error hstep⟩

end Metered

end Famicom.Console
