import Famicom.Proofs.Console.Battery
import Famicom.Proofs.Console.FrameEvents
import Famicom.Proofs.Console.HostLoops
import Famicom.Proofs.Console.Spinning

/-!
# The firings of a frame

After every instruction of a frame its events are fired.  Whatever a host does, the frame clock is
never ahead of the position when that happens: only frames move it, and loading, resetting and other
settings start it anew.  So every firing is on time, and where one has stopped the next one goes on.

Positions are numbers here, but a clock of 32 bits holds them as well: it takes a frame within
fifteen cycles of `2 ^ 32` for an instruction to end where such a clock starts again from zero.

* `stands_of_respects` — what leaves the frame clock alone.
* `frame_induction` — from instruction to instruction through a frame.
* `Paced.of_reachable` — whatever a host does, the clock is not ahead of the position.
* `loopFirings_narrowed`, `Spins.exists_wrapped` — a position of 32 bits.
* `boundaries_fired_once` — every firing of every frame.
* `boundaries_missed` — a frame that 32 bits cannot hold, and one that is over when it starts.
-/

namespace Famicom.Console

/-! ## What leaves the frame clock alone -/

/-- The console has the given settings and stands at the given place of a frame. -/
structure Stands (s : Settings) (k : FrameProgress) (c : Console) : Prop where
  settings : c.settings = s
  clock : c.clock = k

section

variable {s : Settings} {k : FrameProgress}

/-- What does not look at the frame clock does not move it. -/
theorem stands_of_respects {α : Type} {x : StateM Console α}
    (hx : ∀ p, Respects (Alike (Kept fun _ : Bus => True) (Kept (· = k)) p s) x) :
    Respects (Kept (Stands s k)) x := by
  refine respects_kept_iff.mpr fun c h => ?_
  have halike : Alike (Kept fun _ : Bus => True) (Kept (· = k)) c.program s c c :=
    ⟨rfl, ⟨rfl, trivial⟩, ⟨rfl, rfl⟩, ⟨h.settings, h.settings⟩, rfl, rfl, h.clock⟩
  obtain ⟨-, hafter⟩ := hx c.program c c halike
  exact ⟨hafter.settings.1, hafter.clock.2⟩

theorem Bus.true_congruence : Bus.Congruence (Kept fun _ : Bus => True) :=
  Bus.Closed.congruence ⟨fun _ _ _ => trivial, fun _ _ _ _ => trivial, fun _ _ _ => trivial,
    fun _ _ => trivial, fun _ _ => trivial⟩

theorem stands_aloof : Aloof (Stands s k) where
  log _ _ h := ⟨h.settings, h.clock⟩
  attach _ _ _ h := ⟨h.settings, h.clock⟩

/-- A step does not move the frame clock; the frame does so after it. -/
theorem stands_step : Respects (Kept (Stands s k)) step.run :=
  stands_of_respects fun _ => respects_step Bus.true_congruence

/-- Playing on, a sound program has frames of its own. -/
theorem stands_advanceTrack : Respects (Kept (Stands s k)) advanceTrack.run :=
  stands_of_respects fun _ => respects_advanceTrack Bus.true_congruence

theorem stands_startTrack (track : UInt8) :
    Respects (Kept (Stands s k)) (startTrack track).run :=
  kept_startTrack (fun _ h => ⟨h.settings, h.clock⟩) fun sound =>
    stands_of_respects fun _ => respects_callInit Bus.true_congruence sound track

end

/-! ## From instruction to instruction -/

/-- The clock is where it was. -/
theorem Paced.stood {c d : Console} (h : Paced c) (hd : Stands c.settings c.clock d) : Paced d := by
  have hended : d.endedSteps = c.endedSteps ∧ d.endedLines = c.endedLines := by
    unfold endedSteps endedLines
    rw [hd.settings, hd.clock]
    exact ⟨rfl, rfl⟩
  constructor
  case valid => exact hd.settings ▸ h.valid
  case steps => rw [hended.1, hd.clock]; exact h.steps
  case lines => rw [hended.2, hd.clock]; exact h.lines
  case overrun => rw [hd.settings, hd.clock]; exact h.overrun

/-- At `due` the events are to be fired, after an instruction that was executed at `c`. -/
structure Due (c due : Console) : Prop where
  paced : Paced due
  present : due.hasProgram
  settings : due.settings = c.settings
  clock : ∃ position, due.clock = { c.clock with position }

/-- An instruction takes the position on, and the clock only falls further behind. -/
theorem Paced.due {c d : Console} (h : Paced c) {n : Nat}
    (hlt : c.clock.position < c.settings.cyclesPerFrame.toNat)
    (hstep : step.run c = (.ok n, d)) : Due c (d.advanceClock n) := by
  obtain ⟨meter, hstepped⟩ := step_took hstep
  have hsettings : (d.advanceClock n).settings = c.settings := hstepped.frame.settings
  have hclock : (d.advanceClock n).clock = { c.clock with position := c.clock.position + n } := by
    have hd : d.clock = c.clock := hstepped.frame.clock
    rw [advanceClock, hd]
  -- the position only grows, and with it what has ended
  have hended : c.endedSteps ≤ (d.advanceClock n).endedSteps ∧
      c.endedLines ≤ (d.advanceClock n).endedLines := by
    have hlater : c.clock.position ≤ (d.advanceClock n).clock.position := by
      rw [hclock]
      exact Nat.le_add_right ..
    unfold endedSteps endedLines
    rw [hsettings]
    exact ⟨endedParts_mono hlater, endedParts_mono hlater⟩
  refine ⟨?_, hstepped.present, hsettings, _, hclock⟩
  constructor
  case valid => exact hsettings ▸ h.valid
  case steps =>
    rw [hclock]
    exact Nat.le_trans h.steps hended.1
  case lines =>
    rw [hclock]
    exact Nat.le_trans h.lines hended.2
  case overrun =>
    -- fifteen cycles at most, and the instruction began before the end of the frame
    have hfast := hstepped.fast
    rw [hclock, hsettings]
    dsimp only
    omega

/-- The consoles at which the loop of a frame fires its events, one after each instruction, where
`hold` is what becomes of a position that is stored. -/
def loopFirings (hold : Console → Console) : (fuel : Nat) → Console → List Console
  | 0, _ => []
  | fuel + 1, c =>
    if c.clock.position < c.settings.cyclesPerFrame.toNat then
      match step.run c with
      | (.ok cycles, d) =>
        let due := hold (d.advanceClock cycles)
        due :: loopFirings hold fuel due.fireFrameEvents
      | (.error _, _) => []
    else []

/-- A frame that is over before it starts fires nothing. -/
theorem loopFirings_of_over {hold : Console → Console} {fuel : Nat} {c : Console}
    (hover : c.settings.cyclesPerFrame.toNat ≤ c.clock.position) :
    loopFirings hold fuel c = [] := by
  cases fuel with
  | zero => rfl
  | succ fuel => exact if_neg (Nat.not_lt.mpr hover)

/-- From instruction to instruction through the loop of a frame: what is to be shown of a console,
of the firings from there on and of the outcome. -/
theorem frame_induction {motive : Console → List Console → Except Error Unit × Console → Prop}
    (stop : ∀ c, Paced c → motive c [] (.ok (), c))
    (fail : ∀ c e d, Paced c → Stands c.settings c.clock d → motive c [] (.error e, d))
    (next : ∀ c due later outcome, Due c due → motive due.fireFrameEvents later outcome →
      motive c (due :: later) outcome)
    (fuel : Nat) {c : Console} (h : Paced c) :
    motive c (loopFirings id fuel c) ((runCycles fuel).run c) := by
  -- on the fuel; the console that the events leave starts the rest of the loop
  induction fuel generalizing c with
  | zero => exact stop c h
  | succ fuel ih =>
    unfold loopFirings
    split
    · next hlt =>
      rw [fuelled_runCycles.round fuel c (decide_eq_true hlt)]
      have hstands : Stands c.settings c.clock (step.run c).2 := stands_step.keeps ⟨rfl, rfl⟩
      rcases hstep : step.run c with ⟨e | n, d⟩
      · rw [hstep] at hstands
        exact fail c e d h hstands
      · have hdue := h.due hlt hstep
        exact next c _ _ _ hdue (ih hdue.paced.fireFrameEvents)
    · next hend =>
      rw [fuelled_runCycles.ended fuel c (decide_eq_false hend)]
      exact stop c h

/-! ## Every act -/

namespace Paced

variable {c d : Console}

/-- A frame starts behind every boundary. -/
theorem of_start (hvalid : c.settings.Valid) (hclock : c.clock = {}) : Paced c := by
  constructor
  case valid => exact hvalid
  case steps => rw [hclock]; exact Nat.zero_le _
  case lines => rw [hclock]; exact Nat.zero_le _
  case overrun => rw [hclock]; exact Nat.zero_le _

theorem powerOn : Paced powerOn := of_start (by decide) rfl

theorem endFrame (h : Paced c) : Paced c.endFrame := by
  refine ⟨h.valid, Nat.zero_le _, Nat.zero_le _, ?_⟩
  have hoverrun := h.overrun
  change c.clock.position - c.settings.cyclesPerFrame.toNat ≤ c.settings.cyclesPerFrame.toNat + 14
  omega

/-- **The loop of a frame** fires the events after each instruction, and so keeps the clock
behind. -/
theorem runCycles (h : Paced c) (fuel : Nat) : Paced ((Console.runCycles fuel).run c).2 :=
  frame_induction (motive := fun _ _ outcome => Paced outcome.2) (fun _ hc => hc)
    (fun _ _ _ hc hd => hc.stood hd) (fun _ _ _ _ _ hlater => hlater) fuel h

/-- **One frame.**  What it leaves to the next one starts behind every boundary. -/
theorem runFrame (h : Paced c) : Paced (Console.runFrame.run c).2 := by
  have hcycles := h.runCycles c.settings.cyclesPerFrame.toNat
  rw [runFrame_run]
  split
  · rcases hrun : (Console.runCycles c.settings.cyclesPerFrame.toNat).run c with ⟨e | u, last⟩
    · rw [hrun] at hcycles
      exact hcycles
    · rw [hrun] at hcycles
      exact hcycles.endFrame
  · exact h

theorem applySettings (h : Paced c) (s : Settings) : Paced ((applySettings s).run c).2 := by
  unfold Console.applySettings
  cases hfault : s.fault? with
  | some e => exact h
  | none => exact of_start hfault rfl

theorem reset (h : Paced c) : Paced (reset c).2 := by
  by_cases hpresent : c.hasProgram
  · have hstarted := reset_started hpresent
    exact of_start (hstarted.settings ▸ h.valid) hstarted.clock
  · change Paced ((if c.hasProgram then _ else _ : StateM Console Unit) c).2
    rw [if_neg hpresent]
    exact h

theorem load (h : Paced c) (i : Image) : Paced ((load i).run c).2 := by
  rcases load_cases i c with ⟨e, -, hrun⟩ | ⟨cartridge, d, -, hrun, -⟩
  · rw [hrun]
    exact h
  · have hstarted := load_started hrun
    rw [hrun]
    exact of_start (hstarted.settings ▸ h.valid) hstarted.clock

theorem restore (h : Paced c) (s : Snapshot) : Paced ((restore s).run c).2 := by
  rcases restore_cases s c with ⟨e, hrun⟩ | ⟨cartridge, hfits, hrun⟩
  · rw [hrun]
    exact h
  · rw [hrun]
    exact h.stood ⟨rfl, rfl⟩

/-- Every act keeps the clock from getting ahead. -/
theorem acted (h : Paced c) (a : Act) : Paced (c.acted a) := by
  have hsame : Stands c.settings c.clock c := ⟨rfl, rfl⟩
  cases a with
  | load i => exact h.load i
  | reset => exact h.reset
  | applySettings s => exact h.applySettings s
  | step => exact h.stood (stands_step.keeps hsame)
  | runFrame => exact h.runFrame
  | startTrack track => exact h.stood ((stands_startTrack track).keeps hsame)
  | advanceTrack => exact h.stood (stands_advanceTrack.keeps hsame)
  | addPatch text => exact h.stood ((stands_aloof.addPatch text).keeps hsame)
  | removePatch id => exact h.stood ((stands_aloof.removePatch id).keeps hsame)
  | removePatches => exact h.stood (stands_aloof.removePatches.keeps hsame)
  | putBatteryRam data => exact h.stood ((stands_aloof.putBatteryRam data).keeps hsame)
  | restore s => exact h.restore s
  | raiseNmi | takeSamples | busRead | busWrite | chrRead | chrWrite | tick | clearRam
  | clearCounters | attach | operateApu => exact h.stood ⟨rfl, rfl⟩

/-- Whatever a host does, the clock is not ahead of the position. -/
theorem of_reachable (h : Reachable c) : Paced c := h.keeps powerOn fun _ a hc => hc.acted a

end Paced

/-! ## Whole frames -/

/-- The consoles at which a frame that starts at `c` fires its events. -/
def firings (c : Console) : List Console := loopFirings id c.settings.cyclesPerFrame.toNat c

/-- The boundaries that are passed when the events are fired; `part` counts those before. -/
def passes (part : FrameProgress → Nat) (c : Console) : List Nat :=
  List.range' (part c.clock + 1) (part c.fireFrameEvents.clock - part c.clock)

/-- Where one firing stops the next one goes on. -/
theorem loopFirings_passes (part : FrameProgress → Nat)
    (hpart : ∀ k position, part { k with position } = part k)
    (honward : ∀ c, FiresOnTime c → part c.clock ≤ part c.fireFrameEvents.clock)
    (fuel : Nat) {c : Console} (h : Paced c) :
    let last := ((runCycles fuel).run c).2
    part c.clock ≤ part last.clock ∧
      (loopFirings id fuel c).flatMap (passes part) =
        List.range' (part c.clock + 1) (part last.clock - part c.clock) := by
  refine frame_induction (motive := fun c dues outcome =>
    part c.clock ≤ part outcome.2.clock ∧ dues.flatMap (passes part) =
      List.range' (part c.clock + 1) (part outcome.2.clock - part c.clock)) ?_ ?_ ?_ fuel h
  · intro c _
    rw [Nat.sub_self]
    exact ⟨Nat.le_refl _, rfl⟩
  · intro c e d _ hd
    dsimp only
    rw [hd.clock, Nat.sub_self]
    exact ⟨Nat.le_refl _, rfl⟩
  · rintro c due later outcome hdue ⟨hle, hlater⟩
    obtain ⟨position, hclock⟩ := hdue.clock
    have hfirst : part due.clock = part c.clock := by rw [hclock, hpart]
    have hfired := honward due (hdue.paced.firesOnTime hdue.present)
    -- where this firing stops the range is cut, and the rest of the loop has the second part
    refine ⟨by omega, ?_⟩
    have hnext : part due.fireFrameEvents.clock + 1 = part c.clock + 1 +
        (part due.fireFrameEvents.clock - part c.clock) := by omega
    have hwhole : part due.fireFrameEvents.clock - part c.clock +
        (part outcome.2.clock - part due.fireFrameEvents.clock) =
          part outcome.2.clock - part c.clock := by omega
    rw [List.flatMap_cons, hlater, passes, hfirst, hnext, List.range'_append_1, hwhole]

/-- Every firing of a frame is on time, and the settings stay. -/
theorem loopFirings_onTime (fuel : Nat) {c : Console} (h : Paced c) :
    ((runCycles fuel).run c).2.settings = c.settings ∧
      ∀ due ∈ loopFirings id fuel c, due.settings = c.settings ∧ Paced due ∧ FiresOnTime due := by
  refine frame_induction (motive := fun c dues outcome => outcome.2.settings = c.settings ∧
    ∀ due ∈ dues, due.settings = c.settings ∧ Paced due ∧ FiresOnTime due) ?_ ?_ ?_ fuel h
  · exact fun c _ => ⟨rfl, fun due hmem => nomatch hmem⟩
  · exact fun c e d _ hd => ⟨hd.settings, fun due hmem => nomatch hmem⟩
  · rintro c due later outcome hdue ⟨hlast, hlater⟩
    have hsettings : due.fireFrameEvents.settings = c.settings :=
      due.fireFrameEvents_place.1.trans hdue.settings
    refine ⟨hlast.trans hsettings, List.forall_mem_cons.mpr ⟨?_, fun d hmem => ?_⟩⟩
    · exact ⟨hdue.settings, hdue.paced, hdue.paced.firesOnTime hdue.present⟩
    · obtain ⟨hd, honTime⟩ := hlater d hmem
      exact ⟨hd.trans hsettings, honTime⟩

/-- All boundaries that the position has reached have been passed. -/
structure UpToDate (c : Console) : Prop where
  steps : c.clock.steps = c.endedSteps
  lines : c.settings.synthesizeScanlines → c.clock.lines = c.endedLines

/-- Firing the events brings the clock up to date. -/
theorem Paced.upToDate {c : Console} (h : Paced c) : UpToDate c.fireFrameEvents := by
  obtain ⟨hsettings, -⟩ := c.fireFrameEvents_place
  obtain ⟨hsteps, hlines⟩ := c.ended_fireFrameEvents
  refine ⟨h.steps_fired.trans hsteps.symm, fun hsynthesize => ?_⟩
  exact (h.lines_fired (hsettings ▸ hsynthesize)).trans hlines.symm

/-- A frame that ends well and has executed anything has last fired its events. -/
theorem runCycles_upToDate (fuel : Nat) {c : Console} (h : Paced c) :
    let outcome := (runCycles fuel).run c
    outcome.1 = .ok () → outcome.2 = c ∨ UpToDate outcome.2 := by
  refine frame_induction (motive := fun c _ outcome =>
    outcome.1 = .ok () → outcome.2 = c ∨ UpToDate outcome.2) ?_ ?_ ?_ fuel h
  · exact fun c _ _ => .inl rfl
  · exact fun c e d _ _ hok => nomatch hok
  · intro c due later outcome hdue hlater hok
    obtain hlast | hlast := hlater hok
    · rw [hlast]
      exact .inr hdue.paced.upToDate
    · exact .inr hlast

/-- A frame that starts before its end and ends well has passed all its boundaries. -/
theorem complete_of_runFrame {c d : Console} (h : Paced c)
    (hlt : c.clock.position < c.settings.cyclesPerFrame.toNat)
    (hframe : runFrame.run c = (.ok (), d)) :
    let last := ((runCycles c.settings.cyclesPerFrame.toNat).run c).2
    Metered.Complete c.settings last.clock := by
  rw [runFrame_run] at hframe
  split at hframe
  case isFalse => cases hframe
  next hpresent =>
  rcases hcycles : (runCycles c.settings.cyclesPerFrame.toNat).run c with ⟨e | ⟨⟩, last⟩
  · rw [hcycles] at hframe
    cases hframe
  · obtain ⟨hsettings, -⟩ := loopFirings_onTime c.settings.cyclesPerFrame.toNat h
    have hupToDate := runCycles_upToDate c.settings.cyclesPerFrame.toNat h
    rw [hcycles] at hsettings hupToDate
    -- that the fuel lasts to the end of the frame is known of frames with a meter
    obtain ⟨meter, hmetered⟩ :=
      Metered.eq_ok_of_plain ((Metered.runCycles_console _ ⟨c, {}⟩).trans hcycles)
    have hreached : last.settings.cyclesPerFrame.toNat ≤ last.clock.position :=
      Metered.runCycles_reaches (m := ⟨c, {}⟩) hpresent (Nat.le_add_left ..) hmetered
    -- a loop that ends where it starts has found the frame over, which it is not
    obtain rfl | hlast := hupToDate rfl
    · exact absurd hlt (Nat.not_lt.mpr hreached)
    · have hended (parts : Nat) : endedParts last.settings.cyclesPerFrame.toNat parts
          last.clock.position = parts := endedParts_of_le hreached
      dsimp only at hsettings ⊢
      rw [← hsettings]
      exact ⟨hlast.steps.trans (hended _), fun hsynthesize =>
        (hlast.lines hsynthesize).trans (hended _)⟩

/-! ## Positions of 32 bits -/

/-- The console with what 32 bits hold of the position. -/
def narrowed (c : Console) : Console :=
  { c with clock := { c.clock with position := c.clock.position % 2 ^ 32 } }

/-- The consoles at which a frame that starts at `c` fires its events, if its position is kept in 32
bits. -/
def wordFirings (c : Console) : List Console :=
  loopFirings narrowed c.settings.cyclesPerFrame.toNat c

/-- A position below `2 ^ 32` is held as it is. -/
theorem narrowed_of_lt {c : Console} (h : c.clock.position < 2 ^ 32) : c.narrowed = c := by
  rw [narrowed, Nat.mod_eq_of_lt h]

/-- An instruction overruns a frame by fourteen cycles at most, so that 32 bits hold the position
unless the frame takes almost all that they can count. -/
theorem loopFirings_narrowed (fuel : Nat) {c : Console} (h : Paced c)
    (hfits : c.settings.cyclesPerFrame.toNat ≤ 2 ^ 32 - 15) :
    loopFirings narrowed fuel c = loopFirings id fuel c := by
  induction fuel generalizing c with
  | zero => rfl
  | succ fuel ih =>
    unfold loopFirings
    split
    case isFalse => rfl
    next hlt =>
    rcases hstep : step.run c with ⟨e | n, d⟩
    · rfl
    · have hdue := h.due hlt hstep
      have hsettings := (d.advanceClock n).fireFrameEvents_place.1.trans hdue.settings
      have hoverrun := hdue.paced.overrun
      rw [hdue.settings] at hoverrun
      -- the instruction started within the frame, so it ends fourteen cycles past it at most
      have hnarrow : (d.advanceClock n).narrowed = d.advanceClock n :=
        narrowed_of_lt (by omega)
      dsimp only
      rw [hnarrow, ih hdue.paced.fireFrameEvents (hsettings ▸ hfits), id]

/-- In a frame of `2 ^ 32 - 1` cycles a program that spins comes to where 32 bits start again from
zero, and by then the clock has passed all boundaries but the last ones. -/
theorem Spins.exists_wrapped {made : Cartridge} (fuel : Nat) {c : Console} (h : Spins made c)
    (hpaced : Paced c) (hupToDate : UpToDate c) (hsynthesize : c.settings.synthesizeScanlines)
    (hcycles : c.settings.cyclesPerFrame.toNat = 2 ^ 32 - 1) (heven : c.clock.position % 2 = 0)
    (hlt : c.clock.position < 2 ^ 32 - 1) (hfuel : 2 ^ 32 ≤ c.clock.position + 2 * fuel) :
    ∃ due ∈ loopFirings narrowed fuel c, due.settings = c.settings ∧ due.clock =
      { position := 0
        steps := endedParts (2 ^ 32 - 1) c.settings.sequencerStepsPerFrame.toNat (2 ^ 32 - 2)
        lines := endedParts (2 ^ 32 - 1) c.settings.scanlinesPerFrame.toNat (2 ^ 32 - 2) } := by
  induction fuel generalizing c with
  | zero => omega
  | succ fuel ih =>
    obtain ⟨d, hstep, hspins⟩ := h.step
    have hdue := hpaced.due (hcycles ▸ hlt) hstep
    have hclock : (d.advanceClock 2).clock =
        { c.clock with position := c.clock.position + 2 } := by
      obtain ⟨meter, hstepped⟩ := step_took hstep
      have hd : d.clock = c.clock := hstepped.frame.clock
      rw [Console.advanceClock, hd]
    have hfirings : loopFirings narrowed (fuel + 1) c = (d.advanceClock 2).narrowed ::
        loopFirings narrowed fuel (d.advanceClock 2).narrowed.fireFrameEvents := by
      rw [loopFirings, if_pos (hcycles ▸ hlt), hstep]
    replace hspins := hspins.advanceClock 2
    rw [hfirings]
    generalize d.advanceClock 2 = due at *
    -- the position is even and goes up by two, so it comes to the last even number below the end
    by_cases hlast : c.clock.position = 2 ^ 32 - 2
    · have hsteps := hupToDate.steps
      have hlines := hupToDate.lines hsynthesize
      rw [endedSteps, hcycles, hlast] at hsteps
      rw [endedLines, hcycles, hlast] at hlines
      refine ⟨due.narrowed, .head _, hdue.settings, ?_⟩
      have hzero : (c.clock.position + 2) % 2 ^ 32 = 0 := by omega
      rw [← hsteps, ← hlines, narrowed, hclock]
      dsimp only
      rw [hzero]
    · have hposition : due.fireFrameEvents.clock.position = c.clock.position + 2 :=
        due.fireFrameEvents_place.2.trans (congrArg FrameProgress.position hclock)
      have hsettings := due.fireFrameEvents_place.1.trans hdue.settings
      obtain ⟨last, hmem, hlater⟩ := ih hspins.fireFrameEvents hdue.paced.fireFrameEvents
        hdue.paced.upToDate (hsettings ▸ hsynthesize) (hsettings ▸ hcycles) (by omega) (by omega)
        (by omega)
      -- until then 32 bits hold the position, and the loop goes on as it would without a bound
      have hnarrow : due.narrowed = due := by
        refine narrowed_of_lt ?_
        rw [hclock]
        dsimp only
        omega
      rw [hsettings] at hlater
      rw [hnarrow]
      exact ⟨last, .tail _ hmem, hlater⟩

/-! ## Every frame -/

/-- **Boundaries are fired once.**  Whatever a host has done before, in the frame that it runs the
events are fired after every instruction, and every firing leaves the clock with the number of
boundaries that the position has reached by then.  The sequencer takes as many steps, and the board
gets the scanlines that are visible and the last one, as they are passed.  What the firings of a
frame pass, one after the other, are the boundaries from where the frame has started to where it
stops, in order and each of them once; and if a frame that starts before its end ends well, these
are all that were left.  The frame must leave room in 32 bits for the fourteen cycles by which an
instruction can overrun it; then it makes no difference that the position is kept in them. -/
theorem boundaries_fired_once {c : Console} (h : Reachable c)
    (hfits : c.settings.cyclesPerFrame.toNat ≤ 2 ^ 32 - 15) :
    let s := c.settings
    let last := ((runCycles s.cyclesPerFrame.toNat).run c).2
    s.Valid ∧ c.wordFirings = c.firings ∧
      (∀ due ∈ c.firings, due.settings = s ∧
        due.clock.position ≤ s.cyclesPerFrame.toNat + 14 ∧ FiresOnTime due) ∧
      c.firings.flatMap (passes FrameProgress.steps) =
        List.range' (c.clock.steps + 1) (last.clock.steps - c.clock.steps) ∧
      c.firings.flatMap (passes FrameProgress.lines) =
        List.range' (c.clock.lines + 1) (last.clock.lines - c.clock.lines) ∧
      ∀ d, c.clock.position < s.cyclesPerFrame.toNat → runFrame.run c = (.ok (), d) →
        Metered.Complete s last.clock := by
  intro s last
  have hpaced := Paced.of_reachable h
  -- each firing is on time, and one after the other they tile what the frame passes
  obtain ⟨-, honTime⟩ := loopFirings_onTime s.cyclesPerFrame.toNat hpaced
  obtain ⟨-, hsteps⟩ := loopFirings_passes FrameProgress.steps (fun _ _ => rfl)
    (fun _ hfires => hfires.onward.1) s.cyclesPerFrame.toNat hpaced
  obtain ⟨-, hlines⟩ := loopFirings_passes FrameProgress.lines (fun _ _ => rfl)
    (fun _ hfires => hfires.onward.2) s.cyclesPerFrame.toNat hpaced
  refine ⟨hpaced.valid, loopFirings_narrowed _ hpaced hfits, fun due hmem => ?_, hsteps, hlines,
    fun d hlt hframe => complete_of_runFrame hpaced hlt hframe⟩
  obtain ⟨hsettings, hdue, hfires⟩ := honTime due hmem
  have hoverrun := hdue.overrun
  rw [hsettings] at hoverrun
  exact ⟨hsettings, hoverrun, hfires⟩

/-- Two instructions and five sequencer steps in a frame of three cycles: the first one passes four
boundaries, two of them at one cycle, and the second one the last of each kind. -/
theorem boundaries_fired_once_crowded :
    let crowded := { (brief 3).settings with sequencerStepsPerFrame := 5 }
    let c := [.applySettings crowded, .load nops].foldl acted powerOn
    let last := ((runCycles c.settings.cyclesPerFrame.toNat).run c).2
    Reachable c ∧ c.settings = crowded ∧ c.settings.cyclesPerFrame.toNat ≤ 2 ^ 32 - 15 ∧
      c.clock = {} ∧ c.firings.map Console.clock = [⟨2, 0, 0⟩, ⟨4, 4, 0⟩] ∧
      c.wordFirings = c.firings ∧ (∀ due ∈ c.firings, FiresOnTime due) ∧
      c.firings.flatMap (passes FrameProgress.steps) = [1, 2, 3, 4, 5] ∧
      c.firings.flatMap (passes FrameProgress.lines) = [1] ∧
      runFrame.run c = (.ok (), (runFrame.run c).2) ∧ Metered.Complete crowded last.clock := by
  intro crowded c last
  have hreachable : Reachable c := ⟨_, rfl⟩
  have hsettings : c.settings = crowded := by decide +kernel
  have hfits : c.settings.cyclesPerFrame.toNat ≤ 2 ^ 32 - 15 := by
    rw [hsettings]
    decide
  have hstart : c.clock = {} := by decide +kernel
  have hclocks : c.firings.map Console.clock = [⟨2, 0, 0⟩, ⟨4, 4, 0⟩] := by decide +kernel
  have hlast : ((runCycles c.settings.cyclesPerFrame.toNat).run c).2.clock = ⟨4, 5, 1⟩ := by
    decide +kernel
  have hframe : runFrame.run c = (.ok (), (runFrame.run c).2) :=
    Run.run_of_isOk (by decide +kernel)
  obtain ⟨-, hword, honTime, hsteps, hlines, hcomplete⟩ := boundaries_fired_once hreachable hfits
  have hwhole : Metered.Complete c.settings last.clock :=
    hcomplete _ (by rw [hstart, hsettings]; decide) hframe
  rw [hlast, hstart] at hsteps hlines
  exact ⟨hreachable, hsettings, hfits, hstart, hclocks, hword,
    fun due hmem => (honTime due hmem).2.2, hsteps, hlines, hframe, hsettings ▸ hwhole⟩

/-- A program that spins: the two bytes of ROM repeat, so that every even address holds a branch to
itself, and the reset vector is one of them. -/
def spinner : Image := { oneByte 0 with prg := #[0xD0, 0xFE] }

/-- The longest frame that can be chosen, with a program that spins. -/
def endless : Console :=
  [.applySettings { Settings.standard with cyclesPerFrame := 0xFFFFFFFF }, .load spinner].foldl
    acted powerOn

/-- A frame of one cycle that the last instruction has overrun. -/
def covered : Console :=
  [.applySettings (brief 1).settings, .load nops, .runFrame].foldl acted powerOn

/-- The program of the longest frame spins from its first instruction on. -/
theorem endless_spins : ∃ made, Spins made endless := by
  have hmade : Cartridge.ofImage spinner = .ok _ := rfl
  obtain ⟨d, hload, hstarts⟩ := load_cartridge hmade
    (powerOn.acted (.applySettings { Settings.standard with cyclesPerFrame := 0xFFFFFFFF }))
  have hd : endless = d := congrArg Prod.snd hload
  refine ⟨_, hd ▸ hstarts.bus, ⟨_, rfl⟩, ?_, ?_, ?_, ?_, ?_, ?_⟩
  all_goals decide +kernel

/-- The settings of the longest frame were accepted. -/
theorem endless_settings :
    endless.settings = { Settings.standard with cyclesPerFrame := 0xFFFFFFFF } := by
  decide +kernel

/-- Before the first frame the clock stands at zero. -/
theorem endless_clock : endless.clock = {} := by
  decide +kernel

/-- There a frame starts with nothing passed and nothing ended. -/
theorem endless_upToDate : UpToDate endless := by
  constructor
  · rw [endedSteps, endless_settings, endless_clock]
    decide +kernel
  · intro _
    rw [endedLines, endless_settings, endless_clock]
    decide +kernel

/-- A firing of the longest frame finds the position at zero again, behind all that was passed. -/
theorem endless_wraps : ∃ due ∈ endless.wordFirings,
    due.settings = endless.settings ∧ due.clock = ⟨0, 3, 261⟩ := by
  obtain ⟨made, hspins⟩ := endless_spins
  have hsettings := endless_settings
  have hstart := endless_clock
  have hlt : endless.clock.position < 2 ^ 32 - 1 := by
    rw [hstart]
    decide
  have hfuel : 2 ^ 32 ≤ endless.clock.position + 2 * endless.settings.cyclesPerFrame.toNat := by
    rw [hsettings, hstart]
    decide
  obtain ⟨due, hmem, hdue, hclock⟩ := hspins.exists_wrapped _ (Paced.of_reachable ⟨_, rfl⟩)
    endless_upToDate (hsettings ▸ rfl) (hsettings ▸ rfl) (hstart ▸ rfl) hlt hfuel
  refine ⟨due, hmem, hdue, ?_⟩
  rw [hclock, hsettings]
  decide +kernel

/-- In the longest frame a position of 32 bits comes back to zero with three steps and 261 scanlines
passed, where none has been reached, and firing the events leaves them so.  And in a frame of one
cycle that the instruction before it has overrun, all boundaries have been reached when it starts,
and none of them is ever passed. -/
theorem boundaries_missed :
    (Reachable endless ∧ endless.settings.Valid ∧ ∃ due ∈ endless.wordFirings,
      due.settings = endless.settings ∧ due.clock = ⟨0, 3, 261⟩ ∧ due.endedSteps = 0 ∧
        due.endedLines = 0 ∧ due.fireFrameEvents.clock = due.clock ∧ ¬FiresOnTime due) ∧
    Reachable covered ∧ covered.clock = ⟨1, 0, 0⟩ ∧ covered.endedSteps = 4 ∧
      covered.endedLines = 1 ∧ covered.firings = [] ∧ covered.wordFirings = [] ∧
      runFrame.run covered = (.ok (), covered.endFrame) := by
  constructor
  · obtain ⟨due, hmem, hdue, hwrapped⟩ := endless_wraps
    have hreachable : Reachable endless := ⟨_, rfl⟩
    have hsteps : due.endedSteps = 0 := by
      rw [endedSteps, hdue, endless_settings, hwrapped]
      decide +kernel
    have hlines : due.endedLines = 0 := by
      rw [endedLines, hdue, endless_settings, hwrapped]
      decide +kernel
    -- three steps have been passed and none has ended, so nothing fires
    have hstays : due.fireFrameEvents.clock = due.clock := by
      rw [fireFrameEvents_clock, stepsDue, linesDue, hsteps, hlines, Nat.zero_sub, Nat.zero_sub,
        ite_self]
      rfl
    refine ⟨hreachable, (Paced.of_reachable hreachable).valid, due, hmem, hdue, hwrapped, hsteps,
      hlines, hstays, ?_⟩
    intro hfires
    have hthree := hfires.steps
    rw [hstays, hwrapped, hsteps] at hthree
    cases hthree
  · have hclock : covered.clock = ⟨1, 0, 0⟩ := by decide +kernel
    have hsettings : covered.settings = (brief 1).settings := by decide +kernel
    have hover : covered.settings.cyclesPerFrame.toNat ≤ covered.clock.position := by
      rw [hclock, hsettings]
      decide
    have hsteps : covered.endedSteps = 4 := by
      rw [endedSteps, hsettings, hclock]
      decide
    have hlines : covered.endedLines = 1 := by
      rw [endedLines, hsettings, hclock]
      decide
    exact ⟨⟨_, rfl⟩, hclock, hsteps, hlines, loopFirings_of_over hover, loopFirings_of_over hover,
      runFrame_covered (by decide +kernel) hover⟩

end Famicom.Console
