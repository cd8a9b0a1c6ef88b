import Famicom.Proofs.Console.FrameEvents

/-!
# Counting cycles

The processor counts the cycles of its instructions and interrupts, the console counts the cycles of
its steps, every cycle is a tick for the cartridge, and the frame clock measures how far the frame
has come.  These four are counted in different places, but they never drift apart.

* `Counted.play` — the processor, the console and the cartridge, over all calls.
* `Metered.play_ticks` — the cartridge and the frame clock, over frames.
* `play_counts` — all of them, from loading or resetting on.
-/

namespace Famicom.Console

/-! ## Calls that succeed -/

namespace Metered

variable {m m' : Metered}

/-- What a call that succeeds has done. -/
theorem call_ok {call : Call} {r : Option Nat} (h : m.call call = (.ok r, m')) :
    (call = .step ∧ ∃ n, m.step = (.ok n, m')) ∨
      (call = .runFrame ∧ m.runFrame = (.ok (), m')) ∨
      (call = .raiseNmi ∧ m' = m.change fun c => (raiseNmi c).2) := by
  cases call with
  | step =>
    unfold Metered.call at h
    rcases hstep : m.step with ⟨e | n, m₁⟩
    · rw [hstep] at h
      cases h
    · rw [hstep] at h
      cases h
      exact .inl ⟨rfl, n, rfl⟩
  | runFrame =>
    unfold Metered.call at h
    rcases hframe : m.runFrame with ⟨e | ⟨⟩, m₁⟩
    · rw [hframe] at h
      cases h
    · rw [hframe] at h
      cases h
      exact .inr (.inl ⟨rfl, rfl⟩)
  | raiseNmi =>
    cases h
    exact .inr (.inr ⟨rfl, rfl⟩)

/-- Calls that all succeed begin with one that does. -/
theorem play_ok {call : Call} {calls : List Call} (h : m.play (call :: calls) = (.ok (), m')) :
    ∃ r m₁, m.call call = (.ok r, m₁) ∧ m₁.play calls = (.ok (), m') := by
  unfold Metered.play at h
  rcases hcall : m.call call with ⟨e | r, m₁⟩
  · rw [hcall] at h
    cases h
  · rw [hcall] at h
    exact ⟨r, m₁, rfl, h⟩

end Metered

/-! ## Counts that agree -/

/-- The processor and the console have counted the cycles that the cartridge got, and the last frame
was overrun by at most one instruction. -/
structure Counted (s : Settings) (m : Metered) : Prop where
  settings : m.console.settings = s
  present : m.console.hasProgram
  spent : m.console.cpu.totalCycles = UInt64.ofNat m.meter.ticks
  counted : m.console.totals.cpuCycles = UInt64.ofNat m.meter.ticks
  carry : m.console.clock.position ≤ 14

namespace Counted

variable {s : Settings} {m m' : Metered}

/-- When a program is started, everything has counted nothing. -/
theorem of_started {c : Console} (h : Started s c) : Counted s ⟨c, {}⟩ where
  settings := h.settings
  present := h.present
  spent := h.unspent
  counted := congrArg Totals.cpuCycles h.totals
  carry := by
    rw [h.clock]
    exact Nat.zero_le 14

/-- A frame may start where the frame before it has ended. -/
theorem overrun (h : Counted s m) :
    m.console.clock.position ≤ m.console.settings.cyclesPerFrame.toNat + 14 :=
  Nat.le_trans h.carry (Nat.le_add_left ..)

/-- **One step.**  Processor, console and cartridge count the same cycles. -/
theorem step (h : Counted s m) {n : Nat} (hstep : m.step = (.ok n, m')) : Counted s m' := by
  have hstepped := Metered.step_ok hstep
  constructor
  case settings => exact hstepped.frame.settings.trans h.settings
  case present => exact hstepped.present
  case spent => rw [hstepped.spent, hstepped.meter, h.spent, UInt64.ofNat_add]
  case counted => rw [hstepped.counted, hstepped.meter, h.counted, UInt64.ofNat_add]
  case carry =>
    rw [hstepped.frame.clock]
    exact h.carry

/-- **One frame.**  So do they over all its steps. -/
theorem runFrame (h : Counted s m) (hframe : m.runFrame = (.ok (), m')) : Counted s m' := by
  obtain ⟨cycles, hrun⟩ := Metered.runFrame_elapsed h.overrun hframe
  constructor
  case settings => exact hrun.settings.trans h.settings
  case present => exact hrun.present
  case spent => rw [hrun.spent, hrun.ticks, h.spent, UInt64.ofNat_add]
  case counted => rw [hrun.counted, hrun.ticks, h.counted, UInt64.ofNat_add]
  case carry => exact hrun.carry

theorem call (h : Counted s m) {call : Call} {r : Option Nat} (hcall : m.call call = (.ok r, m')) :
    Counted s m' := by
  rcases Metered.call_ok hcall with ⟨-, n, hstep⟩ | ⟨-, hframe⟩ | ⟨-, rfl⟩
  · exact h.step hstep
  · exact h.runFrame hframe
  · exact ⟨h.settings, h.present, h.spent, h.counted, h.carry⟩

/-- As long as calls succeed, the counts agree. -/
theorem play (h : Counted s m) {calls : List Call} (hplay : m.play calls = (.ok (), m')) :
    Counted s m' := by
  induction calls generalizing m with
  | nil =>
    cases hplay
    exact h
  | cons call rest ih =>
    obtain ⟨r, m₁, hcall, hrest⟩ := Metered.play_ok hplay
    exact ih (h.call hcall) hrest

end Counted

/-! ## Time and frames -/

namespace Metered

variable {s : Settings} {m m' : Metered}

/-- A frame takes its cycles, apart from what is carried in and what is carried out. -/
theorem runFrame_ticks (h : Counted s m) (hframe : m.runFrame = (.ok (), m')) :
    m'.meter.ticks + m.console.clock.position =
      m.meter.ticks + s.cyclesPerFrame.toNat + m'.console.clock.position := by
  obtain ⟨cycles, hrun⟩ := runFrame_elapsed h.overrun hframe
  have hreached := hrun.reached
  rw [hrun.ticks, hrun.clock]
  rw [h.settings] at hreached ⊢
  dsimp only
  omega

/-- As long as nothing but frames takes time, the cartridge gets the cycles of all frames and what
the last one has overrun. -/
theorem play_ticks (h : Counted s m) {calls : List Call} (hcalls : .step ∉ calls)
    (hplay : m.play calls = (.ok (), m')) :
    m'.meter.ticks + m.console.clock.position =
      m.meter.ticks + calls.count .runFrame * s.cyclesPerFrame.toNat +
        m'.console.clock.position := by
  induction calls generalizing m with
  | nil =>
    cases hplay
    rw [List.count_nil, Nat.zero_mul, Nat.add_zero]
  | cons call rest ih =>
    obtain ⟨r, m₁, hcall, hrest⟩ := play_ok hplay
    have hlater := ih (h.call hcall) (fun hmem => hcalls (.tail _ hmem)) hrest
    rcases call_ok hcall with ⟨rfl, -⟩ | ⟨rfl, hframe⟩ | ⟨rfl, rfl⟩
    · exact absurd (.head _) hcalls
    · have hfirst := runFrame_ticks h hframe
      rw [List.count_cons_self, Nat.succ_mul]
      omega
    · rw [List.count_cons_of_ne (by decide)]
      exact hlater

/-- At no time in a frame is it overrun by more than one instruction. -/
theorem runCycles_position (h : Counted s m) (fuel : Nat) :
    (m.runCycles fuel).2.console.clock.position ≤ s.cyclesPerFrame.toNat + 14 := by
  have hstart : OnTime m m := ⟨⟨0, .refl h.present⟩, h.overrun⟩
  obtain ⟨hkept, hfailed⟩ :=
    runCycles_keeps (P := OnTime m) (fun n m₁ m₂ => OnTime.next) fuel hstart
  have hbound {last : Metered} (hlast : OnTime m last) :
      last.console.clock.position ≤ s.cyclesPerFrame.toNat + 14 := by
    obtain ⟨cycles, helapsed⟩ := hlast.elapsed
    have hoverrun := hlast.overrun
    rw [helapsed.settings, h.settings] at hoverrun
    exact hoverrun
  -- a step that fails leaves the frame clock where the step before it did
  rcases hcycles : m.runCycles fuel with ⟨e | ⟨⟩, m'⟩
  · obtain ⟨last, hlast, -, hstep⟩ := hfailed e m' hcycles
    dsimp only
    rw [(step_error hstep).frame.clock]
    exact hbound hlast
  · exact hbound (hkept m' hcycles)

end Metered

/-- **Cycle conservation.**  From loading or resetting a program on, as long as calls succeed, the
console and the processor have counted (modulo 2⁶⁴) the cycles that reached the cartridge.  With
frames and requested interrupts only, these are the cycles of the frames and what the last one has
overrun, which is less than one instruction.  No position in a frame needs more than 32 bits, unless
the frame itself almost does. -/
theorem play_counts {c started : Console}
    (hstart : (∃ i, (load i).run c = (.ok (), started)) ∨
      (c.hasProgram ∧ started = (reset c).2))
    {calls : List Call} {d : Console} (hplay : (play calls).run started = (.ok (), d)) :
    ∃ meter, Metered.play calls ⟨started, {}⟩ = (.ok (), ⟨d, meter⟩) ∧
      d.totals.cpuCycles = d.cpu.totalCycles ∧
      d.cpu.totalCycles = UInt64.ofNat meter.ticks ∧
      d.clock.position ≤ 14 ∧
      (.step ∉ calls → meter.ticks =
        calls.count .runFrame * c.settings.cyclesPerFrame.toNat + d.clock.position) ∧
      (c.settings.cyclesPerFrame.toNat ≤ 2 ^ 32 - 16 →
        ∀ fuel, ((runCycles fuel).run d).2.clock.position < 2 ^ 32) := by
  have hstarted : Started c.settings started := by
    rcases hstart with ⟨i, hload⟩ | ⟨hprogram, rfl⟩
    · exact load_started hload
    · exact reset_started hprogram
  obtain ⟨meter, hmetered⟩ :=
    Metered.eq_ok_of_plain ((Metered.play_console calls ⟨started, {}⟩).trans hplay)
  have hfirst := Counted.of_started hstarted
  have hlast := hfirst.play hmetered
  refine ⟨meter, hmetered, hlast.counted.trans hlast.spent.symm, hlast.spent, hlast.carry, ?_, ?_⟩
  · intro hcalls
    have hticks := Metered.play_ticks hfirst hcalls hmetered
    dsimp only at hticks
    rw [hstarted.clock, Nat.zero_add] at hticks
    exact hticks
  · intro hfits fuel
    have hposition := Metered.runCycles_position hlast fuel
    rw [← Metered.runCycles_console fuel ⟨d, meter⟩]
    exact Nat.lt_of_le_of_lt hposition (by omega)

/-- Two frames of three cycles, the second with an interrupt, take thirteen. -/
theorem play_counts_interrupted :
    let c := brief 3
    let started := ((load nops).run c).2
    let calls := [Call.runFrame, .raiseNmi, .runFrame]
    let d := ((play calls).run started).2
    (load nops).run c = (.ok (), started) ∧ (play calls).run started = (.ok (), d) ∧
      d.clock.position = 7 ∧
      ∃ meter, Metered.play calls ⟨started, {}⟩ = (.ok (), ⟨d, meter⟩) ∧
        meter.ticks = 13 ∧ d.cpu.totalCycles = 13 ∧ d.totals.cpuCycles = 13 ∧
        ∀ fuel, ((runCycles fuel).run d).2.clock.position < 2 ^ 32 := by
  intro c started calls d
  have hload : (load nops).run c = (.ok (), started) := rfl
  have hplay : (play calls).run started = (.ok (), d) := Run.run_of_isOk (by decide +kernel)
  have hposition : d.clock.position = 7 := by decide +kernel
  obtain ⟨meter, hmetered, hcounted, hspent, -, hframes, hfits⟩ :=
    play_counts (.inl ⟨nops, hload⟩) hplay
  have hticks : meter.ticks = 13 := by
    rw [hframes (by decide), hposition]
    decide
  have hcycles : d.cpu.totalCycles = 13 := by
    rw [hspent, hticks]
    decide
  exact ⟨hload, hplay, hposition, meter, hmetered, hticks, hcycles, hcounted.trans hcycles,
    hfits (by decide)⟩

end Famicom.Console
