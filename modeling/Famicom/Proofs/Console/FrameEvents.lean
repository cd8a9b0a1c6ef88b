import Famicom.Proofs.Console.Frames

/-!
# The events of a frame

From loading on, whatever is called and whether or not it succeeds, a frame that starts before its
end and ends well passes all its sequencer steps and scanlines.  Only a frame so short that one
instruction can overrun all of it may start at its end; then it runs nothing and fires nothing.

* `load_started`, `reset_started` — how a program starts.
* `Ready.called` — between frames.
* `runFrame_fires` — what every frame fires.
-/

namespace Famicom.Console

/-! ## Starting -/

/-- A program has just been started, with the given settings. -/
structure Started (s : Settings) (c : Console) : Prop where
  settings : c.settings = s
  present : c.hasProgram
  clock : c.clock = {}
  totals : c.totals = {}
  unspent : c.cpu.totalCycles = 0

/-- Resetting starts the program that is loaded. -/
theorem reset_started {c : Console} (h : c.hasProgram) : Started c.settings (reset c).2 := by
  have hframe := SameFrame.exec (Exec.respects_reset Bus.present_closed.congruence.1)
    { c with bus := { c.bus with apu := c.bus.apu.reset }.clearCounters }
  have hpresent := hframe.present h
  change Started c.settings ((if c.hasProgram then _ else _ : StateM Console Unit) c).2
  rw [if_pos h]
  exact ⟨rfl, hpresent, rfl, rfl, rfl⟩

/-- What is recorded of a start does not matter. -/
theorem Started.report {s : Settings} {c : Console} (h : Started s c) (e : Event) :
    Started s (report e c).2 := ⟨h.settings, h.present, h.clock, h.totals, h.unspent⟩

/-- Loading starts a program. -/
theorem load_started {i : Image} {c d : Console} (h : (load i).run c = (.ok (), d)) :
    Started c.settings d := by
  unfold load at h
  cases hmade : Cartridge.ofImage i with
  | error e =>
    rw [hmade] at h
    cases h
  | ok cartridge =>
    rw [hmade] at h
    -- whatever the program is, the reset does the same to the rest of the console
    have hstarted (program : Program) : Started c.settings (reset { c with
        bus := (c.bus.attach cartridge).clearRam
        patches := .empty
        program := some program }).2 :=
      reset_started (c := { c with
        bus := (c.bus.attach cartridge).clearRam
        patches := .empty
        program := some program }) rfl
    have hloaded (program : Program) := (hstarted program).report (.loaded program.title)
    cases hknown : Board.isKnown i.mapper with
    | true =>
      simp only [hknown] at h
      obtain rfl := congrArg Prod.snd h
      exact hloaded _
    | false =>
      simp only [hknown] at h
      obtain rfl := congrArg Prod.snd h
      exact (hloaded _).report _

/-! ## Between frames -/

/-- A jammed processor ends a frame at once. -/
theorem Metered.runFrame_jammed {m : Metered} (hpresent : m.console.hasProgram)
    (hjam : m.console.cpu.halt.isSome)
    (hlt : m.console.clock.position < m.console.settings.cyclesPerFrame.toNat) :
    ∃ e, m.runFrame = (.error e, m) := by
  obtain ⟨halt, hhalt⟩ := Option.isSome_iff_exists.mp hjam
  have hstep : m.step = (.error (.halted halt), m) := by
    rw [Metered.step, hpresent, hhalt]
    rfl
  have hcycles (fuel : Nat) : m.runCycles (fuel + 1) = (.error (.halted halt), m) := by
    rw [Metered.runCycles, if_pos hlt, hstep]
  refine ⟨.halted halt, ?_⟩
  rw [Metered.runFrame, hpresent, ← Nat.succ_pred_eq_of_pos (Nat.zero_lt_of_lt hlt), hcycles]
  rfl

/-- Where calls leave a loaded program: at the start of a frame, with what the frame before has
overrun, or within a frame in which the processor jammed. -/
structure Ready (s : Settings) (c : Console) : Prop where
  settings : c.settings = s
  present : c.hasProgram
  place : (c.clock.steps = 0 ∧ c.clock.lines = 0 ∧ c.clock.position ≤ 14) ∨
    (c.cpu.halt.isSome ∧ c.clock.position < s.cyclesPerFrame.toNat)

/-- Make calls one after the other, whether or not they succeed. -/
def callAll (calls : List Call) (c : Console) : Console :=
  calls.foldl (fun c call => (call.run.run c).2) c

namespace Ready

variable {s : Settings} {c : Console}

/-- A program that was just started stands at the start of a frame. -/
theorem of_started (h : Started s c) : Ready s c := by
  refine ⟨h.settings, h.present, .inl ?_⟩
  rw [h.clock]
  exact ⟨rfl, rfl, Nat.zero_le _⟩

/-- The position is that of a frame that is overrun by at most one instruction. -/
theorem overrun (h : Ready s c) :
    c.clock.position ≤ c.settings.cyclesPerFrame.toNat + 14 := by
  rw [h.settings]
  rcases h.place with ⟨-, -, hcarry⟩ | ⟨-, hlt⟩
  · omega
  · omega

/-- A frame that ends well has fired nothing before its start. -/
theorem unfired (h : Ready s c) (hlt : c.clock.position < s.cyclesPerFrame.toNat) {meter : Meter}
    {m : Metered} (hframe : Metered.runFrame ⟨c, meter⟩ = (.ok (), m)) :
    c.clock.steps = 0 ∧ c.clock.lines = 0 := by
  rcases h.place with ⟨hsteps, hlines, -⟩ | ⟨hjam, -⟩
  · exact ⟨hsteps, hlines⟩
  · obtain ⟨e, herror⟩ := Metered.runFrame_jammed (m := ⟨c, meter⟩) h.present hjam
      (h.settings ▸ hlt)
    rw [herror] at hframe
    cases hframe

/-- At the end of a frame, it is overrun by at most one instruction. -/
theorem carry (h : Ready s c) (hend : s.cyclesPerFrame.toNat ≤ c.clock.position) :
    c.clock.position ≤ 14 := by
  rcases h.place with ⟨-, -, hcarry⟩ | ⟨-, hlt⟩
  · exact hcarry
  · exact absurd hlt (Nat.not_lt.mpr hend)

/-- What keeps the frame clock and a jam keeps the place. -/
theorem sameFrame (h : Ready s c) {d : Console} (k : SameFrame c d)
    (hjam : c.cpu.halt.isSome → d.cpu.halt.isSome) : Ready s d := by
  refine ⟨k.settings.trans h.settings, k.present h.present, ?_⟩
  rw [k.clock]
  exact h.place.imp id fun hjammed => ⟨hjam hjammed.1, hjammed.2⟩

/-- **One step** moves no frame clock, and a jam lasts. -/
theorem step (h : Ready s c) : Ready s (Console.step.run c).2 := by
  by_cases hjam : c.cpu.halt.isSome
  · obtain ⟨halt, hhalt⟩ := Option.isSome_iff_exists.mp hjam
    rw [step_jammed h.present hhalt]
    exact h
  · rw [← Metered.step_console ⟨c, {}⟩]
    rcases hstep : Metered.step ⟨c, {}⟩ with ⟨e | n, m⟩
    · exact h.sameFrame (Metered.step_error hstep).frame fun hjammed => absurd hjammed hjam
    · exact h.sameFrame (Metered.step_ok hstep).frame fun hjammed => absurd hjammed hjam

/-- **One frame** ends at the start of the next one, unless the processor jams in it. -/
theorem runFrame (h : Ready s c) : Ready s (Console.runFrame.run c).2 := by
  rw [← Metered.runFrame_console ⟨c, {}⟩]
  rcases hframe : Metered.runFrame ⟨c, {}⟩ with ⟨e | u, m⟩
  · -- the step that failed was within the frame, and has left a jam
    obtain ⟨last, hlast, hlt, hfailed⟩ := Metered.runFrame_error h.present h.overrun hframe
    obtain ⟨cycles, helapsed⟩ := hlast.elapsed
    have hs : last.console.settings = s := helapsed.settings.trans h.settings
    refine ⟨hfailed.frame.settings.trans hs, hfailed.frame.present helapsed.present, .inr ?_⟩
    refine ⟨hfailed.jammed helapsed.present, ?_⟩
    rw [hs] at hlt
    change m.console.clock.position < s.cyclesPerFrame.toNat
    rw [hfailed.frame.clock]
    exact hlt
  · obtain ⟨cycles, hrun⟩ := Metered.runFrame_elapsed h.overrun hframe
    refine ⟨hrun.settings.trans h.settings, hrun.present, .inl ⟨?_, ?_, hrun.carry⟩⟩
    · exact congrArg FrameProgress.steps hrun.clock
    · exact congrArg FrameProgress.lines hrun.clock

/-- Whether or not a call succeeds, it leaves the program at such a place. -/
theorem called (h : Ready s c) (call : Call) : Ready s (call.run.run c).2 := by
  cases call with
  | step =>
    have hstep := h.step
    unfold Call.run
    rw [Run.map_run]
    rcases hresult : Console.step.run c with ⟨e | n, d⟩
    · rw [hresult] at hstep
      exact hstep
    · rw [hresult] at hstep
      exact hstep
  | runFrame =>
    have hframe := h.runFrame
    unfold Call.run
    rw [Run.bind_run]
    rcases hresult : Console.runFrame.run c with ⟨e | u, d⟩
    · rw [hresult] at hframe
      exact hframe
    · rw [hresult] at hframe
      exact hframe
  | raiseNmi => exact ⟨h.settings, h.present, h.place⟩

theorem callAll (h : Ready s c) (calls : List Call) : Ready s (Console.callAll calls c) := by
  induction calls generalizing c with
  | nil => exact h
  | cons call rest ih => exact ih (h.called call)

end Ready

/-- A frame that starts at its end only ends. -/
theorem runFrame_covered {c : Console} (hpresent : c.hasProgram)
    (hcovered : c.settings.cyclesPerFrame.toNat ≤ c.clock.position) :
    runFrame.run c = (.ok (), c.endFrame) := by
  rw [← Metered.runFrame_console ⟨c, {}⟩,
    Metered.runFrame_covered (m := ⟨c, {}⟩) hpresent hcovered]
  rfl

/-! ## The events of every frame -/

/-- **Frame events.**  After loading, whatever calls have been made and however they ended, a frame
that ends well fires all sequencer steps and, if scanlines are wanted, the visible ones and one
more, unless it started at its end.  That takes a frame of at most fourteen cycles, all of which the
frame before has overrun; then nothing is run and nothing is fired. -/
theorem runFrame_fires {c loaded : Console} {i : Image} (hvalid : c.settings.Valid)
    (hload : (load i).run c = (.ok (), loaded)) (calls : List Call) {d : Console}
    (hframe : runFrame.run (callAll calls loaded) = (.ok (), d)) :
    let s := c.settings
    let before := callAll calls loaded
    ∃ meter, Metered.runFrame ⟨before, {}⟩ = (.ok (), ⟨d, meter⟩) ∧
      (before.clock.position < s.cyclesPerFrame.toNat →
        meter.sequencerSteps = s.sequencerStepsPerFrame.toNat ∧
          meter.scanlines = if s.synthesizeScanlines then s.visibleScanlines.toNat + 1 else 0) ∧
      (s.cyclesPerFrame.toNat ≤ before.clock.position →
        s.cyclesPerFrame.toNat ≤ 14 ∧ meter = {} ∧ d = before.endFrame) := by
  intro s before
  have hready : Ready s before := (Ready.of_started (load_started hload)).callAll calls
  obtain ⟨meter, hmetered⟩ :=
    Metered.eq_ok_of_plain ((Metered.runFrame_console ⟨before, {}⟩).trans hframe)
  refine ⟨meter, hmetered, fun hlt => ?_, fun hcovered => ?_⟩
  · obtain ⟨hsteps, hlines⟩ := hready.unfired hlt hmetered
    have hfired := Metered.runFrame_fired (visibleScanlines_lt hvalid) hready.settings
      hsteps hlines hlt hmetered
    rw [Nat.zero_add, Nat.zero_add] at hfired
    exact hfired
  · have hend : before.settings.cyclesPerFrame.toNat ≤ before.clock.position :=
      hready.settings ▸ hcovered
    have honly := Metered.runFrame_covered (m := ⟨before, {}⟩) hready.present hend
    rw [hmetered] at honly
    cases honly
    exact ⟨Nat.le_trans hcovered (hready.carry hcovered), rfl, rfl⟩

/-- A console with frames of a few cycles, four sequencer steps and one scanline. -/
def brief (cyclesPerFrame : UInt32) : Console :=
  { powerOn with settings := { Settings.standard with
      cyclesPerFrame, scanlinesPerFrame := 1, visibleScanlines := 0 } }

/-- An instruction of two cycles overruns a frame of three by one, and the next frame still fires
everything. -/
theorem runFrame_fires_overrun :
    let c := brief 3
    let loaded := ((load nops).run c).2
    let before := callAll [.runFrame] loaded
    c.settings.Valid ∧ (load nops).run c = (.ok (), loaded) ∧
      runFrame.run before = (.ok (), (runFrame.run before).2) ∧ before.clock.position = 1 ∧
      ∃ meter, Metered.runFrame ⟨before, {}⟩ = (.ok (), ⟨(runFrame.run before).2, meter⟩) ∧
        meter.sequencerSteps = 4 ∧ meter.scanlines = 1 := by
  intro c loaded before
  have hvalid : c.settings.Valid := by decide
  have hload : (load nops).run c = (.ok (), loaded) := rfl
  have hframe : runFrame.run before = (.ok (), (runFrame.run before).2) :=
    Run.run_of_isOk (by decide +kernel)
  have hposition : before.clock.position = 1 := by decide +kernel
  obtain ⟨meter, hmetered, hfires, -⟩ := runFrame_fires hvalid hload [.runFrame] hframe
  refine ⟨hvalid, hload, hframe, hposition, meter, hmetered, hfires ?_⟩
  rw [hposition]
  decide

/-- An instruction of two cycles overruns a frame of one by the whole next frame, which then ends
well and fires nothing. -/
theorem runFrame_fires_nothing :
    let c := brief 1
    let loaded := ((load nops).run c).2
    let before := (runFrame.run loaded).2
    c.settings.Valid ∧ c.settings.sequencerStepsPerFrame = 4 ∧
      (load nops).run c = (.ok (), loaded) ∧ runFrame.run loaded = (.ok (), before) ∧
      runFrame.run before = (.ok (), before.endFrame) ∧
      Metered.runFrame ⟨before, {}⟩ = (.ok (), ⟨before.endFrame, {}⟩) := by
  intro c loaded before
  have hpresent : before.hasProgram := by decide +kernel
  have hcovered : before.settings.cyclesPerFrame.toNat ≤ before.clock.position := by
    decide +kernel
  have hfirst : runFrame.run loaded = (.ok (), before) := Run.run_of_isOk (by decide +kernel)
  clear_value before
  refine ⟨by decide, rfl, rfl, hfirst, runFrame_covered hpresent hcovered, ?_⟩
  exact Metered.runFrame_covered (m := ⟨before, {}⟩) hpresent hcovered

end Famicom.Console
