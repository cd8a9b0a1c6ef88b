import Famicom.Proofs.Sound.Beats
import Famicom.Proofs.Sound.TimerRate

/-!
# What a sweep does to its channel

The sweep unit of a pulse channel moves the period every few half frames.  It moves it one way only,
never out of the eleven bits of the timer, and it stops where the channel is muted: when the period
is too short to sound, or the next one would be too long.  From there only a register leads on.

* `Sweep.goal`, `Sweep.InRange.toNat_target` — where a sweep leads, as a number: no word overflows.
* `Pulse.Clock` — the clocks of a channel; `Pulse.Onward` — what they leave as it is.
* `Pulse.InRange.onward_clocked` — one clock; `Pulse.InRange.onward_after` — any number of them.
* `Apu.pulse_run` — a run of the unit without writes and resets is for its pulse channels a number
  of clocks.
* `Apu.sweeps_safely` — all of it.
-/

namespace Famicom.Sound

open Apu (Act Move)

/-! ## Where a sweep leads -/

namespace Sweep

/-- What a sweep takes off in addition when it negates: one, where it negates by one's
complement. -/
def extra (s : Sweep) : Nat := if s.onesComplement then 1 else 0

/-- The period that a sweep leads to, and no less than zero. -/
def goal (s : Sweep) (period : Nat) : Nat :=
  if s.negate then period - period >>> s.shift.toNat - s.extra
  else period + period >>> s.shift.toNat

/-- The sweep without its running divider. -/
def settings (s : Sweep) : Sweep := { s with reload := false, divider := 0 }

variable {s t : Sweep} {period : UInt16}

theorem goal_congr (h : s.settings = t.settings) : s.goal = t.goal :=
  (congrArg goal h :)

theorem settings_clock (s : Sweep) (period : UInt16) :
    (s.clock period).2.settings = s.settings := by
  unfold clock
  split <;> rfl

/-- A period moves in the half frames in which an enabled sweep has its turn. -/
theorem fst_clock (s : Sweep) (period : UInt16) :
    (s.clock period).1 = if s.divider = 0 ∧ s.enabled = true then s.adjust period else period := by
  unfold clock
  by_cases hturn : s.divider = 0
  · simp [hturn]
  · cases s.reload <;> simp [hturn]

/-- The word that the sweep works out is its goal. -/
theorem InRange.toNat_target (h : s.InRange) (hperiod : period.toNat < 2 ^ 11) :
    (s.target period).toNat = s.goal period.toNat := by
  have hshift : s.shift.toNat % 16 = s.shift.toNat :=
    Nat.mod_eq_of_lt (Nat.lt_trans h.shift (by decide))
  have hchange : (period >>> s.shift.toUInt16).toNat = period.toNat >>> s.shift.toNat := by
    rw [UInt16.toNat_shiftRight, UInt8.toNat_toUInt16, hshift]
  have hle : period.toNat >>> s.shift.toNat ≤ period.toNat := by
    rw [← hchange]
    exact change_le s period
  have hextra : (if s.onesComplement then 1 else 0 : UInt16).toNat = s.extra := by
    unfold extra
    cases s.onesComplement <;> rfl
  have hone : s.extra ≤ 1 := by
    unfold extra
    cases s.onesComplement <;> decide
  unfold target goal
  -- subtracting stops at zero; adding has room, since the period has eleven bits of sixteen
  split
  · have hsum : (period >>> s.shift.toUInt16 + if s.onesComplement then 1 else 0).toNat =
        period.toNat >>> s.shift.toNat + s.extra := by
      rw [UInt16.toNat_add, hchange, hextra]
      omega
    dsimp only
    generalize period >>> s.shift.toUInt16 + (if s.onesComplement then 1 else 0) = change at hsum ⊢
    split
    · next hfits => rw [UInt16.toNat_sub_of_le _ _ hfits, hsum, Nat.sub_add_eq]
    · next hover =>
      rw [UInt16.le_iff_toNat_le, hsum] at hover
      rw [UInt16.toNat_zero]
      omega
  · rw [UInt16.toNat_add, hchange]
    omega

end Sweep

/-! ## Clocks of a channel -/

namespace Pulse

/-- A clock of a pulse channel. -/
inductive Clock
  | timer
  | quarter
  | half
  deriving DecidableEq, Repr

/-- The channel after a clock. -/
def clocked (p : Pulse) : Clock → Pulse
  | .timer => p.clockTimer
  | .quarter => p.clockQuarter
  | .half => p.clockHalf

/-- The channel after some clocks. -/
def after (p : Pulse) (clocks : List Clock) : Pulse := clocks.foldl clocked p

/-- The period is too short to sound, or its sweep would lead out of the timer. -/
def Muted (p : Pulse) : Prop :=
  p.timer.period.toNat < 8 ∨ 0x7FF < p.sweep.goal p.timer.period.toNat

/-- The next half frame moves the period: it is the turn of a sweep that is enabled and shifts, and
the channel is not muted. -/
def Sweeps (p : Pulse) : Prop :=
  p.sweep.divider = 0 ∧ p.sweep.enabled = true ∧ p.sweep.shift ≠ 0 ∧ ¬p.Muted

instance (p : Pulse) : Decidable p.Muted := inferInstanceAs (Decidable (_ ∨ _))

instance (p : Pulse) : Decidable p.Sweeps := inferInstanceAs (Decidable (_ ∧ _))

section

variable {p q r : Pulse}

theorem InRange.clocked (h : p.InRange) (c : Clock) : (p.clocked c).InRange := by
  cases c with
  | timer => exact h.clockTimer
  | quarter => exact h.clockQuarter
  | half => exact h.clockHalf

theorem InRange.after (h : p.InRange) (clocks : List Clock) : (p.after clocks).InRange :=
  List.foldlRecOn (motive := fun q => q.InRange) clocks Pulse.clocked h
    fun _ h c _ => h.clocked c

theorem after_nil (p : Pulse) : p.after [] = p := rfl

theorem after_append (p : Pulse) (before later : List Clock) :
    p.after (before ++ later) = (p.after before).after later := List.foldl_append ..

/-- No clock rewires a channel. -/
theorem extra_after (p : Pulse) (clocks : List Clock) :
    (p.after clocks).sweep.extra = p.sweep.extra := by
  refine List.foldlRecOn (motive := fun q => q.sweep.extra = p.sweep.extra) clocks clocked rfl ?_
  intro q hq c _
  cases c with
  | timer | quarter => exact hq
  | half => exact (congrArg Sweep.extra (Sweep.settings_clock ..) :).trans hq

theorem InRange.mutes_iff (h : p.InRange) :
    p.sweep.mutes p.timer.period = true ↔ p.Muted := by
  rw [Sweep.mutes, Bool.or_eq_true, decide_eq_true_eq, decide_eq_true_eq, UInt16.lt_iff_toNat_lt,
    UInt16.lt_iff_toNat_lt, h.sweep.toNat_target h.timer.period]
  rfl

/-- The period after a half frame. -/
theorem InRange.toNat_period_clockHalf (h : p.InRange) :
    p.clockHalf.timer.period.toNat =
      if p.Sweeps then p.sweep.goal p.timer.period.toNat else p.timer.period.toNat := by
  have hperiod : p.clockHalf.timer.period = (p.sweep.clock p.timer.period).1 := rfl
  rw [hperiod, Sweep.fst_clock, Sweep.adjust]
  simp only [Bool.or_eq_true, decide_eq_true_eq, h.mutes_iff]
  by_cases hsweeps : p.Sweeps
  · obtain ⟨hturn, henabled, hshift, hheard⟩ := hsweeps
    rw [if_pos ⟨hturn, henabled⟩, if_neg (not_or.mpr ⟨hshift, hheard⟩), if_pos ⟨hturn, henabled,
      hshift, hheard⟩, h.sweep.toNat_target h.timer.period]
  · rw [if_neg hsweeps]
    split
    · next hturn =>
      split
      · rfl
      · next hmoves =>
        obtain ⟨hshift, hheard⟩ := not_or.mp hmoves
        exact absurd ⟨hturn.1, hturn.2, hshift, hheard⟩ hsweeps
    · rfl

/-- Whatever the clocks of a channel do, they leave the settings of its sweep as they are and move
the period one way, or not at all. -/
structure Onward (p q : Pulse) : Prop where
  settings : q.sweep.settings = p.sweep.settings
  falls : p.sweep.negate = true → q.timer.period ≤ p.timer.period
  rises : p.sweep.negate = false → p.timer.period ≤ q.timer.period
  rests : p.sweep.enabled = false ∨ p.sweep.shift = 0 → q.timer.period = p.timer.period
  muted : p.Muted → q.timer.period = p.timer.period

theorem Onward.of_eq (hsweep : q.sweep = p.sweep) (hperiod : q.timer.period = p.timer.period) :
    p.Onward q where
  settings := congrArg Sweep.settings hsweep
  falls _ := hperiod ▸ UInt16.le_refl _
  rises _ := hperiod ▸ UInt16.le_refl _
  rests _ := hperiod
  muted _ := hperiod

theorem Onward.still_muted (h : p.Onward q) (hmuted : p.Muted) : q.Muted := by
  rw [Muted, h.muted hmuted, Sweep.goal_congr h.settings]
  exact hmuted

theorem Onward.trans (h : p.Onward q) (k : q.Onward r) : p.Onward r := by
  have hnegate : q.sweep.negate = p.sweep.negate := (congrArg Sweep.negate h.settings :)
  have henabled : q.sweep.enabled = p.sweep.enabled := (congrArg Sweep.enabled h.settings :)
  have hshift : q.sweep.shift = p.sweep.shift := (congrArg Sweep.shift h.settings :)
  constructor
  · exact k.settings.trans h.settings
  · exact fun hn => UInt16.le_trans (k.falls (hnegate.trans hn)) (h.falls hn)
  · exact fun hn => UInt16.le_trans (h.rises hn) (k.rises (hnegate.trans hn))
  · exact fun hrests => (k.rests (by rwa [henabled, hshift])).trans (h.rests hrests)
  · exact fun hmuted => (k.muted (h.still_muted hmuted)).trans (h.muted hmuted)

/-- A half frame. -/
theorem InRange.onward_clockHalf (h : p.InRange) : p.Onward p.clockHalf := by
  have hperiod := h.toNat_period_clockHalf
  have hstays (hnot : ¬p.Sweeps) : p.clockHalf.timer.period = p.timer.period := by
    rw [if_neg hnot] at hperiod
    exact UInt16.toNat_inj.mp hperiod
  -- a period that moves at all moves to the goal, which lies on the side that negation says
  constructor
  · exact Sweep.settings_clock ..
  · intro hnegate
    rw [UInt16.le_iff_toNat_le, hperiod, Sweep.goal, if_pos hnegate]
    split
    · exact Nat.le_trans (Nat.sub_le ..) (Nat.sub_le ..)
    · exact Nat.le_refl _
  · intro hnegate
    rw [UInt16.le_iff_toNat_le, hperiod, Sweep.goal, if_neg (Bool.eq_false_iff.mp hnegate)]
    split
    · exact Nat.le_add_right ..
    · exact Nat.le_refl _
  · rintro (hdisabled | hshift)
    · exact hstays fun hsweeps => Bool.false_ne_true (hdisabled.symm.trans hsweeps.2.1)
    · exact hstays fun hsweeps => hsweeps.2.2.1 hshift
  · exact fun hmuted => hstays fun hsweeps => hsweeps.2.2.2 hmuted

theorem InRange.onward_clocked (h : p.InRange) (c : Clock) : p.Onward (p.clocked c) := by
  cases c with
  | timer =>
    refine .of_eq rfl ?_
    change p.timer.clock.2.period = p.timer.period
    unfold Timer.clock
    split <;> rfl
  | quarter => exact .of_eq rfl rfl
  | half => exact h.onward_clockHalf

/-- Any number of clocks. -/
theorem InRange.onward_after (h : p.InRange) (clocks : List Clock) : p.Onward (p.after clocks) := by
  induction clocks generalizing p with
  | nil => exact .of_eq rfl rfl
  | cons c rest ih => exact (h.onward_clocked c).trans (ih (h.clocked c))

/-- A muted channel is silent. -/
theorem InRange.level_of_muted (h : p.InRange) (hmuted : p.Muted) : p.level = 0 := by
  rw [level, h.mutes_iff.mpr hmuted]
  simp

end

end Pulse

/-! ## Runs of the unit -/

/-- What the sweep of a pulse channel takes off in addition when it negates: the first pulse negates
by one's complement, the second by two's complement. -/
def PulseIndex.extra : PulseIndex → Nat
  | .one => 1
  | .two => 0

namespace Apu

/-- Each pulse channel negates as its index says. -/
def Wired (a : Apu) : Prop := ∀ i, (a.pulse i).sweep.extra = i.extra

section

variable {a : Apu} (i : PulseIndex)

theorem pulse_inRange (h : a.channels.InRange) : (a.pulse i).InRange := by
  cases i with
  | one => exact h.pulse1
  | two => exact h.pulse2

theorem pulse_runTimers (n : Nat) (a : Apu) :
    ∃ clocks, (a.runTimers n).pulse i = (a.pulse i).after clocks := by
  refine ⟨List.replicate (a.evenCycles n) .timer, ?_⟩
  rw [(a.channels_runTimers n).1]
  generalize a.pulse i = p
  induction a.evenCycles n generalizing p with
  | zero => rfl
  | succ k ih => exact ih p.clockTimer

theorem pulse_sample (a : Apu) : ∃ clocks, a.sample.2.pulse i = (a.pulse i).after clocks := by
  obtain ⟨clocks, hclocks⟩ := pulse_runTimers i a.accrue.1 a.accrue.2
  refine ⟨clocks, ?_⟩
  cases i <;> exact hclocks

theorem pulse_samplesOnto (buffer : Array UInt8) (n : Nat) (a : Apu) :
    ∃ clocks, (a.samplesOnto buffer n).2.pulse i = (a.pulse i).after clocks := by
  induction n generalizing buffer a with
  | zero => exact ⟨[], rfl⟩
  | succ n ih =>
    obtain ⟨before, hbefore⟩ := pulse_sample i a
    obtain ⟨later, hlater⟩ := ih (buffer.push a.sample.1) a.sample.2
    refine ⟨before ++ later, ?_⟩
    rw [Pulse.after_append, ← hbefore]
    exact hlater

theorem pulse_clockFrame (clocks : Beat) (a : Apu) :
    (a.clockFrame clocks).pulse i = (a.pulse i).after
      ((if clocks.quarter then [.quarter] else []) ++ if clocks.half then [.half] else []) := by
  obtain ⟨quarter, half⟩ := clocks
  cases quarter <;> cases half <;> cases i <;> rfl

/-- A move without a write or a reset is for a pulse channel a number of clocks. -/
theorem pulse_moved {m : Move} (hwrites : m.writes = false) (hresets : m.resets = false) (a : Apu) :
    ∃ clocks, (a.moved m).pulse i = (a.pulse i).after clocks := by
  cases m with
  | clockTimers => exact pulse_runTimers i 1 a
  | act act =>
    cases act with
    | write => cases hwrites
    | reset => cases hresets
    | samples n => exact pulse_samplesOnto i #[] n a
    | stepSequencer => exact ⟨_, pulse_clockFrame i _ _⟩
    | withMixing mixing =>
      refine ⟨[], ?_⟩
      change (a.withMixing mixing).pulse i = a.pulse i
      unfold withMixing
      split <;> cases i <;> rfl
    | readStatus | withSampleRate => exact ⟨[], by cases i <;> rfl⟩

theorem pulse_run {moves : List Move} (hwrites : ∀ m ∈ moves, m.writes = false)
    (hresets : ∀ m ∈ moves, m.resets = false) (a : Apu) :
    ∃ clocks, (moves.foldl moved a).pulse i = (a.pulse i).after clocks := by
  induction moves generalizing a with
  | nil => exact ⟨[], rfl⟩
  | cons m rest ih =>
    obtain ⟨hwrite, hwrites⟩ := List.forall_mem_cons.mp hwrites
    obtain ⟨hreset, hresets⟩ := List.forall_mem_cons.mp hresets
    obtain ⟨before, hbefore⟩ := pulse_moved i hwrite hreset a
    obtain ⟨later, hlater⟩ := ih hwrites hresets (a.moved m)
    refine ⟨before ++ later, ?_⟩
    rw [Pulse.after_append, ← hbefore]
    exact hlater

end

/-! ## Wiring -/

section

variable {a : Apu}

theorem wired_powerOn : powerOn.Wired := by
  intro i
  cases i <;> rfl

theorem Wired.of_sweeps {b : Apu} (h : a.Wired)
    (hsweeps : ∀ i, (b.pulse i).sweep.extra = (a.pulse i).sweep.extra) : b.Wired :=
  fun i => (hsweeps i).trans (h i)

theorem Wired.confine (h : a.Wired) : a.confine.Wired :=
  h.of_sweeps fun i => by cases i <;> rfl

/-- No register rewires a channel. -/
theorem extra_write (i : PulseIndex) (addr : UInt16) (value : UInt8) (a : Apu) :
    ((a.write addr value).pulse i).sweep.extra = (a.pulse i).sweep.extra := by
  by_cases haddr : addr = 0x4017
  · subst haddr
    let b := { a with sequencer := a.sequencer.writeControl value }
    change ((b.clockFrame ⟨b.sequencer.fiveStep, b.sequencer.fiveStep⟩).pulse i).sweep.extra = _
    rw [pulse_clockFrame, Pulse.extra_after]
    cases i <;> rfl
  · unfold write
    split
    case h_16 => exact absurd rfl haddr
    all_goals cases i <;> rfl

theorem Wired.moved (h : a.Wired) (m : Move) : (a.moved m).Wired := by
  have hclocked (hwrites : m.writes = false) (hresets : m.resets = false) : (a.moved m).Wired := by
    refine h.of_sweeps fun i => ?_
    obtain ⟨clocks, hclocks⟩ := pulse_moved i hwrites hresets a
    rw [hclocks, Pulse.extra_after]
  cases m with
  | clockTimers => exact hclocked rfl rfl
  | act act =>
    cases act with
    | write addr value => exact h.of_sweeps fun i => extra_write i addr value a
    | reset => exact wired_powerOn
    | _ => exact hclocked rfl rfl

/-- A unit is wired as it was when it was saved. -/
theorem Reached.wired {Saved : Apu → Prop} (h : a.Reached Saved)
    (hsaved : ∀ saved, Saved saved → saved.Wired) : a.Wired := by
  induction h with
  | powerOn => exact wired_powerOn
  | restored h => exact (hsaved _ h).confine
  | moved _ m ih => exact ih.moved m

end

/-! ## All of it -/

/-- **What a sweep does to its channel.**  Let `p` be a pulse channel of a unit that has been
reached, whatever clocks it had since; while the unit runs without writes and resets, clocks are all
that it has.  Its period fits the timer.  The next half frame moves the period to the goal of the
sweep, if the sweep has its turn, and else leaves it; in negating, the first channel goes one
further than the second, unless a saved state was wired otherwise.  However many clocks follow, the
period never rises if the sweep negates, never falls if it does not, and stays as it is if the sweep
is disabled or does not shift; and if the channel is muted it stays muted, at the same period, and
silent. -/
theorem sweeps_safely {Saved : Apu → Prop} {a : Apu} (h : a.Reached Saved) (i : PulseIndex) :
    (∀ moves : List Move,
      (∀ m ∈ moves, m.writes = false) → (∀ m ∈ moves, m.resets = false) →
        ∃ clocks, (moves.foldl moved a).pulse i = (a.pulse i).after clocks) ∧
    ∀ before : List Pulse.Clock,
      let p := (a.pulse i).after before
      p.timer.period ≤ Timer.maxPeriod ∧
      p.clockHalf.timer.period.toNat =
        (if p.Sweeps then p.sweep.goal p.timer.period.toNat else p.timer.period.toNat) ∧
      ((∀ saved, Saved saved → saved.Wired) → p.sweep.extra = i.extra) ∧
      ∀ clocks : List Pulse.Clock,
        let q := p.after clocks
        (p.sweep.negate = true → q.timer.period ≤ p.timer.period) ∧
        (p.sweep.negate = false → p.timer.period ≤ q.timer.period) ∧
        (p.sweep.enabled = false ∨ p.sweep.shift = 0 → q.timer.period = p.timer.period) ∧
        (p.Muted → q.Muted ∧ q.timer.period = p.timer.period ∧ q.level = 0) := by
  refine ⟨fun moves hwrites hresets => pulse_run i hwrites hresets a, ?_⟩
  intro before p
  have hp : p.InRange := (pulse_inRange i h.inRange).after before
  refine ⟨?_, hp.toNat_period_clockHalf, fun hsaved => ?_, ?_⟩
  · exact UInt16.le_iff_toNat_le.mpr (Nat.le_of_lt_succ hp.timer.period)
  · exact (Pulse.extra_after _ before).trans (h.wired hsaved i)
  · intro clocks q
    have honward : p.Onward q := hp.onward_after clocks
    refine ⟨honward.falls, honward.rises, honward.rests, fun hmuted => ?_⟩
    have hstill : q.Muted := honward.still_muted hmuted
    exact ⟨hstill, honward.muted hmuted, (hp.after clocks).level_of_muted hstill⟩

/-- The first pulse is swept down from 256 by halves until it is muted at 7, and stays there; the
second, whose sweep is left alone, stays at 256. -/
theorem sweeps_safely_down :
    let writes : List Move := [.act (.write 0x4002 0x00), .act (.write 0x4003 0x01),
      .act (.write 0x4001 0x89), .act (.write 0x4006 0x00), .act (.write 0x4007 0x01)]
    let a := writes.foldl moved powerOn
    let steps : List Move := List.replicate 4 (.act .stepSequencer)
    let p := (a.pulse .one).after (List.replicate 9 .half)
    a.Reached (fun _ => False) ∧
      (∃ clocks, (steps.foldl moved a).pulse .one = (a.pulse .one).after clocks) ∧
      (a.pulse .one).sweep.negate = true ∧ (a.pulse .two).sweep.negate = false ∧
      (a.pulse .two).sweep.enabled = false ∧ p.Muted ∧ p.sweep.extra = 1 ∧
      ∀ clocks : List Pulse.Clock,
        p.timer.period ≤ (a.pulse .one).timer.period ∧
        (p.after clocks).timer.period = 7 ∧ (p.after clocks).level = 0 ∧
        ((a.pulse .two).after clocks).timer.period = 0x100 := by
  intro writes a steps p
  have ha : a.Reached (fun _ => False) := Reached.powerOn.run writes
  have hfalls : (a.pulse .one).sweep.negate = true := by decide
  have hrises : (a.pulse .two).sweep.negate = false := by decide
  have hdisabled : (a.pulse .two).sweep.enabled = false := by decide
  have hlow : (a.pulse .two).timer.period = 0x100 := by decide
  have hmuted : p.Muted := by decide
  have hseven : p.timer.period = 7 := by decide
  have hp : (a.pulse .one).after (List.replicate 9 .half) = p := rfl
  have hsteps : ∀ m ∈ steps, m.writes = false ∧ m.resets = false := by
    intro m hm
    rw [List.eq_of_mem_replicate hm]
    exact ⟨rfl, rfl⟩
  clear_value a p
  obtain ⟨hruns, hone⟩ := sweeps_safely ha .one
  obtain ⟨-, htwo⟩ := sweeps_safely ha .two
  obtain ⟨-, -, hextra, hswept⟩ := hone (List.replicate 9 .half)
  rw [hp] at hextra hswept
  refine ⟨ha, hruns steps (fun m hm => (hsteps m hm).1) (fun m hm => (hsteps m hm).2), hfalls,
    hrises, hdisabled, hmuted, hextra fun _ hnone => hnone.elim, fun clocks => ?_⟩
  obtain ⟨-, hperiod, hlevel⟩ := (hswept clocks).2.2.2 hmuted
  have hdown := ((hone []).2.2.2 (List.replicate 9 .half)).1 hfalls
  have hstays := ((htwo []).2.2.2 clocks).2.2.1 (.inl hdisabled)
  rw [Pulse.after_nil] at hdown hstays
  rw [hp] at hdown
  exact ⟨hdown, hperiod.trans hseven, hlevel, hstays.trans hlow⟩

/-- Wiring is saved and put back with the rest, so that a saved state can rewire a channel. -/
theorem rewired_restored :
    let saved := { powerOn with pulse1 := .powerOn false }
    (saved.confine.pulse .one).sweep.extra = 0 ∧ PulseIndex.one.extra = 1 := ⟨rfl, rfl⟩

end Apu

end Famicom.Sound
