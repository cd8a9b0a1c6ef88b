import Famicom.Proofs.Console.FrameDivision
import Famicom.Proofs.Console.Tracks
import Famicom.Proofs.Sound.Still

/-!
# The audio unit obeys the settings

Settings are checked when they are chosen, and the audio unit takes its sample rate and its mixing
law from them.  Resetting, starting a track and going back to a snapshot put another audio unit in
the place of the old one.  The first two keep the tuning, and a snapshot, which may claim any tuning
at all, gets the one of the settings.

* `Apu.tuning_write`, `Apu.tuning_stepSequencer`, `Apu.tuning_samples` — no program and no listener
  can retune the audio unit.
* `Configured.acted` — every act of a host but retuning the unit by hand.
* `configured_of_acts` — consoles from their start on.
-/

namespace Famicom

open Sound

/-! ## The tuning of the audio unit -/

namespace Sound.Apu

/-- What the host chooses about the sound: the sample rate and the mixing law. -/
def tuning (a : Apu) : UInt32 × Mixing := (a.sampleRate, a.mixing)

/-- A beat of the sequencer concerns the channels. -/
theorem tuning_clockFrame (a : Apu) (clocks : Beat) : (a.clockFrame clocks).tuning = a.tuning := by
  obtain ⟨quarter, half⟩ := clocks
  cases quarter <;> cases half <;> rfl

theorem tuning_stepSequencer (a : Apu) : a.stepSequencer.tuning = a.tuning :=
  tuning_clockFrame _ _

/-- A register write concerns the channels and the sequencer. -/
theorem tuning_write (a : Apu) (addr : UInt16) (value : UInt8) :
    (a.write addr value).tuning = a.tuning := by
  unfold write
  split
  case h_16 => exact tuning_clockFrame _ _
  all_goals rfl

theorem tuning_samples (n : Nat) (a : Apu) : (a.samples n).2.tuning = a.tuning := by
  have hstill : (a.samples n).2.still.tuning = a.still.tuning :=
    congrArg tuning (still_samples n a)
  exact hstill

/-- Choosing a mixing law keeps the rate. -/
theorem tuning_withMixing (a : Apu) (mixing : Mixing) :
    (a.withMixing mixing).tuning = (a.sampleRate, mixing) := by
  unfold withMixing
  split
  · next hsame => exact congrArg (a.sampleRate, ·) hsame
  · rfl

/-- Choosing a rate never gets below the lowest. -/
theorem minSampleRate_le_max (rate : UInt32) : minSampleRate ≤ max rate minSampleRate := by
  change minSampleRate ≤ if rate ≤ minSampleRate then minSampleRate else rate
  split
  · exact UInt32.le_refl _
  · next hlow => exact UInt32.le_of_lt (UInt32.not_le.mp hlow)

/-- Whatever the unit is tuned to, it can be tuned as the settings ask. -/
theorem tuning_chosen (a : Apu) (s : Settings) :
    ((a.withSampleRate s.sampleRate).withMixing s.mixing).tuning =
      (max s.sampleRate minSampleRate, s.mixing) := tuning_withMixing _ _

end Sound.Apu

/-- A program cannot retune the audio unit. -/
theorem Bus.tuning_closed (t : UInt32 × Mixing) : Bus.Closed fun b => b.apu.tuning = t where
  fetch b addr h := by
    change ((b.count addr Tally.read).fetch addr).2.apu.tuning = t
    unfold Bus.fetch
    split
    · exact h
    · exact h
    · split
      · exact h
      · exact h
    · split
      · exact h
      · exact h
  store b addr value h := by
    change ((b.count addr Tally.write).store addr value).apu.tuning = t
    unfold Bus.store
    split
    · exact h
    · exact h
    · exact (Apu.tuning_write _ addr value).trans h
    · exact h
  tick _ _ h := h
  clockScanline _ h := h
  stepSequencer b h := (Apu.tuning_stepSequencer b.apu).trans h

namespace Console

/-! ## Operations that keep settings and tuning -/

/-- The console has the given settings and tuning. -/
structure Retains (s : Settings) (t : UInt32 × Mixing) (c : Console) : Prop where
  settings : c.settings = s
  tuning : c.bus.apu.tuning = t

section

variable {s : Settings} {t : UInt32 × Mixing}

/-- What alike consoles go through alike keeps settings and tuning. -/
theorem retains_of_respects {α : Type} {x : StateM Console α}
    (hx : ∀ p, Respects (Alike (Kept fun b : Bus => b.apu.tuning = t) Eq p s) x) :
    Respects (Kept (Retains s t)) x := by
  refine respects_kept_iff.mpr fun c h => ?_
  obtain ⟨-, hsettings, htuning⟩ := (hx c.program).keeps_bus rfl h.settings h.tuning
  exact ⟨hsettings, htuning⟩

/-- Settings and tuning are beside the cartridge, the patches and the log. -/
theorem retains_aloof : Aloof (Retains s t) where
  log _ _ h := ⟨h.settings, h.tuning⟩
  attach _ _ _ h := ⟨h.settings, h.tuning⟩

theorem retains_onBus {f : Bus → Bus} (hf : ∀ b, (f b).apu.tuning = b.apu.tuning) :
    Respects (Kept (Retains s t)) (onBus f) :=
  .update_kept fun c h => ⟨h.settings, (hf c.bus).trans h.tuning⟩

theorem retains_execReset :
    Respects (Kept (Retains s t)) (exec Exec.reset : StateM Console Unit) :=
  retains_of_respects fun _ =>
    respects_exec (Exec.respects_reset (Bus.tuning_closed t).congruence.1)

theorem retains_step : Respects (Kept (Retains s t)) step.run :=
  retains_of_respects fun _ => respects_step (Bus.tuning_closed t).congruence

theorem retains_runFrame : Respects (Kept (Retains s t)) runFrame.run :=
  retains_of_respects fun _ => respects_runFrame (Bus.tuning_closed t).congruence

theorem retains_advanceTrack : Respects (Kept (Retains s t)) advanceTrack.run :=
  retains_of_respects fun _ => respects_advanceTrack (Bus.tuning_closed t).congruence

theorem retains_startTrack (track : UInt8) :
    Respects (Kept (Retains s t)) (startTrack track).run := by
  refine kept_startTrack (fun c h => ?_) fun sound =>
    retains_of_respects fun _ => respects_callInit (Bus.tuning_closed t).congruence sound track
  have hwiped : Retains s t { c with bus := c.bus.wiped } := ⟨h.settings, h.tuning⟩
  have hrestarted := retains_execReset.keeps hwiped
  exact ⟨hrestarted.settings, (Apu.tuning_write _ 0x4017 0x40).trans
    ((Apu.tuning_write _ 0x4015 0x0F).trans hrestarted.tuning)⟩

/-- A reset silences the audio unit without retuning it. -/
theorem retains_reset : Respects (Kept (Retains s t)) reset := by
  unfold reset
  exact .observe_kept fun c => .ite (.bind (retains_onBus fun _ => rfl) fun _ =>
    .bind retains_execReset fun _ => .bind (.update_kept fun _ h => ⟨h.settings, h.tuning⟩)
      fun _ => .observe_kept fun d => retains_aloof.report _) (.pure _)

/-- A new program runs on the same settings and tuning. -/
theorem retains_load (i : Image) : Respects (Kept (Retains s t)) (load i).run := by
  unfold load
  split
  · exact .run_throw _
  · exact .run_bind (.run_lift (retains_onBus fun _ => rfl)) fun _ =>
      .run_bind (.run_lift (.update_kept fun _ h => ⟨h.settings, h.tuning⟩)) fun _ =>
        .run_bind (.run_lift retains_reset) fun _ => .run_bind (.run_lift (retains_aloof.report _))
          fun _ => .run_ite (.run_lift (retains_aloof.report _)) (.run_pure _)

end

/-! ## Every act -/

/-- Acts that reach past the settings and tune the audio unit by hand. -/
def Act.retunes : Act → Bool
  | .operateApu (.withSampleRate _) | .operateApu (.withMixing _) => true
  | _ => false

/-- The settings are valid, and the audio unit is tuned as they ask. -/
structure Configured (c : Console) : Prop where
  valid : c.settings.Valid
  tuned : c.Tuned

namespace Configured

variable {c d : Console}

/-- Keeping settings and tuning keeps a console configured. -/
theorem retained (h : Configured c) (hd : Retains c.settings c.bus.apu.tuning d) :
    Configured d where
  valid := hd.settings ▸ h.valid
  tuned := {
    sampleRate := by
      rw [hd.settings, ← h.tuned.sampleRate]
      exact congrArg Prod.fst hd.tuning
    mixing := by
      rw [hd.settings, ← h.tuned.mixing]
      exact congrArg Prod.snd hd.tuning }

/-- A console with valid settings and an audio unit that was tuned by them. -/
theorem of_tuning (hvalid : c.settings.Valid)
    (h : c.bus.apu.tuning = (max c.settings.sampleRate Apu.minSampleRate, c.settings.mixing)) :
    Configured c := ⟨hvalid, congrArg Prod.fst h, congrArg Prod.snd h⟩

/-- Settings that are refused change nothing, and others tune the audio unit at once. -/
theorem applySettings (h : Configured c) (s : Settings) :
    Configured ((applySettings s).run c).2 := by
  unfold Console.applySettings
  cases hfault : s.fault? with
  | some e => exact h
  | none => exact of_tuning hfault (c.bus.apu.tuning_chosen s)

/-- Whatever tuning a snapshot claims, it gets the one of the settings. -/
theorem restore (h : Configured c) (s : Snapshot) : Configured ((restore s).run c).2 := by
  rcases restore_cases s c with ⟨e, hrun⟩ | ⟨d, hfits, hrun⟩
  · rw [hrun]
    exact h
  · rw [hrun]
    exact of_tuning h.valid (s.apu.confine.tuning_chosen c.settings)

/-- A console stays configured, whatever the host does but retune the audio unit by hand. -/
theorem acted (h : Configured c) {a : Act} (ha : a.retunes = false) : Configured (c.acted a) := by
  have hsame : Retains c.settings c.bus.apu.tuning c := ⟨rfl, rfl⟩
  have hbus {b : Bus} (hb : b.apu.tuning = c.bus.apu.tuning) : Configured { c with bus := b } :=
    h.retained ⟨rfl, hb⟩
  have hapu {a : Apu} (ha : a.tuning = c.bus.apu.tuning) :
      Configured { c with bus := { c.bus with apu := a } } := hbus ha
  have hclosed := Bus.tuning_closed c.bus.apu.tuning
  cases a with
  | load i => exact h.retained ((retains_load i).keeps hsame)
  | reset => exact h.retained (retains_reset.keeps hsame)
  | applySettings s => exact h.applySettings s
  | step => exact h.retained (retains_step.keeps hsame)
  | runFrame => exact h.retained (retains_runFrame.keeps hsame)
  | raiseNmi => exact h.retained ⟨rfl, rfl⟩
  | takeSamples n => exact hapu (Apu.tuning_samples n c.bus.apu)
  | startTrack track => exact h.retained ((retains_startTrack track).keeps hsame)
  | advanceTrack => exact h.retained (retains_advanceTrack.keeps hsame)
  | addPatch text => exact h.retained ((retains_aloof.addPatch text).keeps hsame)
  | removePatch id => exact h.retained ((retains_aloof.removePatch id).keeps hsame)
  | removePatches => exact h.retained (retains_aloof.removePatches.keeps hsame)
  | putBatteryRam data => exact h.retained ((retains_aloof.putBatteryRam data).keeps hsame)
  | restore s => exact h.restore s
  | busRead addr => exact hbus (hclosed.fetch c.bus addr rfl)
  | busWrite addr value => exact hbus (hclosed.store c.bus addr value rfl)
  | chrRead addr =>
    refine hbus ?_
    unfold Bus.chrRead
    dsimp only
    split <;> rfl
  | chrWrite addr value => exact hbus rfl
  | tick cycles => exact hbus rfl
  | clearRam => exact hbus rfl
  | clearCounters => exact hbus rfl
  | attach cartridge => exact hbus rfl
  | operateApu a =>
    cases a with
    | write addr value => exact hapu (c.bus.apu.tuning_write addr value)
    | readStatus => exact hbus rfl
    | stepSequencer => exact hapu c.bus.apu.tuning_stepSequencer
    | samples n => exact hapu (Apu.tuning_samples n c.bus.apu)
    | withSampleRate rate => cases ha
    | withMixing mixing => cases ha
    | reset => exact hbus rfl

/-- Any number of acts, by induction over them. -/
theorem of_acts (h : Configured c) {acts : List Act} (hacts : ∀ a ∈ acts, a.retunes = false) :
    Configured (acts.foldl Console.acted c) := by
  induction acts generalizing c with
  | nil => exact h
  | cons a rest ih =>
    obtain ⟨ha, hrest⟩ := List.forall_mem_cons.mp hacts
    exact ih (h.acted ha) hrest

theorem powerOn : Configured powerOn := of_tuning (by decide) rfl

/-- Settings that are accepted are taken over by the audio unit at once. -/
theorem of_withSettings {s : Settings} (h : withSettings s = .ok c) : Configured c := by
  have happlied := powerOn.applySettings s
  unfold withSettings at h
  rcases hrun : (Console.applySettings s).run Console.powerOn with ⟨e | u, d⟩
  · rw [hrun] at h
    cases h
  · rw [hrun] at h happlied
    cases h
    exact happlied

end Configured

/-- **Settings stay valid and are obeyed.**  A console starts without a program, with the standard
settings or with others that were accepted, and then the host does anything but retune the audio
unit by hand.  At every moment the settings are valid, so that a frame is never divided by zero; the
sample rate is the chosen one, raised to the lowest that there is, so that the clock rate is never
divided by zero; and the mixing law is the chosen one. -/
theorem configured_of_acts {start : Console}
    (hstart : start = powerOn ∨ ∃ s, withSettings s = .ok start) {acts : List Act}
    (hacts : ∀ a ∈ acts, a.retunes = false) :
    let c := acts.foldl acted start
    c.settings.Valid ∧ c.settings.sequencerStepsPerFrame ≠ 0 ∧ c.settings.scanlinesPerFrame ≠ 0 ∧
      c.bus.apu.sampleRate = max c.settings.sampleRate 8000 ∧ c.bus.apu.sampleRate ≠ 0 ∧
      c.bus.apu.mixing = c.settings.mixing := by
  intro c
  have hconfigured : Configured c := by
    rcases hstart with rfl | ⟨s, hs⟩
    · exact Configured.powerOn.of_acts hacts
    · exact (Configured.of_withSettings hs).of_acts hacts
  obtain ⟨-, ⟨hsteps, -⟩, ⟨hlines, -⟩, -, -⟩ := Settings.valid_iff.mp hconfigured.valid
  -- the lowest rate is above zero, and so is what is raised to it
  have hrate : Apu.minSampleRate ≤ c.bus.apu.sampleRate :=
    hconfigured.tuned.sampleRate ▸ Apu.minSampleRate_le_max _
  refine ⟨hconfigured.valid, ?_, hlines, hconfigured.tuned.sampleRate, ?_,
    hconfigured.tuned.mixing⟩
  · intro hzero
    rw [hzero] at hsteps
    exact absurd hsteps (by decide)
  · intro hzero
    rw [hzero] at hrate
    exact absurd hrate (by decide)

/-- A snapshot of a console that claims a sample rate of zero and the other mixing law. -/
def retunedSnapshot (c : Console) (cartridge : Cartridge) (p : Program) : Snapshot :=
  { c.snapshotOf cartridge p with apu := { c.bus.apu with sampleRate := 0, mixing := .linear } }

/-- A snapshot is not refused for the rate that it was taken at. -/
theorem fits_retunedSnapshot {c : Console} {cartridge : Cartridge} {p : Program}
    (hc : c.bus.cartridge = some cartridge) (hp : c.program = some p) :
    Fits (c.retunedSnapshot cartridge p) c cartridge := by
  obtain ⟨hversion, hprogram, hram, hcartridge⟩ := fits_snapshotOf hc hp
  exact ⟨hversion, hprogram, hram, hcartridge⟩

/-- Settings with a sample rate below the lowest are taken, settings without cycles are refused, and
a snapshot that was tampered with is restored. -/
theorem configured_of_acts_tampered :
    let low := { Settings.standard with sampleRate := 1 }
    let start := ((applySettings low).run powerOn).2
    let c := start.acted (.load (oneByte 0))
    ∃ cartridge, c.bus.cartridge = some cartridge ∧
      let s := c.retunedSnapshot cartridge (.ofImage (oneByte 0))
      let acts := [.load (oneByte 0), .applySettings { low with cyclesPerFrame := 0 }, .restore s]
      let d := acts.foldl acted start
      withSettings low = .ok start ∧ (∀ a ∈ acts, a.retunes = false) ∧ s.apu.sampleRate = 0 ∧
        (restore s).run c = (.ok (), d) ∧ d.settings = low ∧ d.bus.apu.sampleRate = 8000 ∧
        d.bus.apu.mixing = .nonlinear := by
  intro low start c
  have hloaded : Holding (oneByte 0) c := .loaded (Run.run_of_isOk (c := start) rfl)
  obtain ⟨made, -, hprogram, cartridge, hc, -⟩ := hloaded.held
  refine ⟨cartridge, hc, ?_⟩
  intro s acts d
  have hrestore := (fits_retunedSnapshot hc hprogram).restore_eq
  have hd : d = ((restore s).run c).2 := rfl
  have hstart : withSettings low = .ok start := rfl
  have hacts : ∀ a ∈ acts, a.retunes = false := by
    simp only [acts, List.forall_mem_cons, Act.retunes, true_and]
    exact fun a ha => nomatch ha
  have hsettings : d.settings = low := by
    rw [hd, hrestore]
    rfl
  obtain ⟨-, -, -, hrate, -, hmixing⟩ := configured_of_acts (.inr ⟨low, hstart⟩) hacts
  have hchosen : max low.sampleRate 8000 = 8000 := rfl
  refine ⟨hstart, hacts, rfl, ?_, hsettings, ?_, ?_⟩
  · rw [hd, hrestore]
  · rw [hrate, hsettings, hchosen]
  · rw [hmixing, hsettings]
    rfl

end Console

end Famicom
