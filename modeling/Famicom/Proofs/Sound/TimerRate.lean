import Famicom.Proofs.Sound.Safety
import Mathlib.Logic.Function.Iterate

/-!
# How fast the timers run

A timer finds itself at zero once its counter has run out, and from then on every `period + 1`
clocks; the counter it starts from need not fit the period, which may have been shortened meanwhile.
How far a waveform has come after a number of clocks is therefore a quotient.  The timers of the
pulse and noise channels have their clocks on even cycles only, that of the triangle on every cycle.

* `Timer.reloads` — how often a timer reloads in a number of clocks.
* `Timer.snd_drive_iterate` — what a timer drives is moved on that often.
* `Apu.evenCycles_eq` — how many clocks fall on an even cycle.
* `Apu.timer_rates` — the three kinds of channels.
-/

namespace Famicom.Sound

/-! ## Reloading -/

namespace Timer

/-- How often a timer reloads in `n` clocks: once its counter has run out, and every `period + 1`
clocks from then on. -/
def reloads (t : Timer) (n : Nat) : Nat :=
  if n ≤ t.counter.toNat then 0 else 1 + (n - t.counter.toNat - 1) / (t.period.toNat + 1)

section

variable {period counter : UInt16} {n : Nat}

/-- The clock that finds the counter at zero. -/
theorem reloads_zero (period : UInt16) (n : Nat) :
    reloads ⟨period, 0⟩ (n + 1) = reloads ⟨period, period⟩ n + 1 := by
  have hdiv : n / (period.toNat + 1) = reloads ⟨period, period⟩ n := by
    rw [reloads, Nat.div_eq]
    dsimp only
    split <;> split <;> try omega
    rw [Nat.add_comm, Nat.sub_add_eq]
  rw [← hdiv]
  exact (if_neg (Nat.not_succ_le_zero n)).trans (Nat.add_comm 1 _)

/-- Any other clock. -/
theorem reloads_succ (h : counter ≠ 0) :
    reloads ⟨period, counter⟩ (n + 1) = reloads ⟨period, counter - 1⟩ n := by
  have hpos : counter.toNat ≠ 0 := fun h0 => h (UInt16.toNat_inj.mp h0)
  have hlt := counter.toNat_lt
  have hpred : (counter - 1).toNat = counter.toNat - 1 := by
    rw [UInt16.toNat_sub, UInt16.toNat_one]
    omega
  have hleft : n + 1 - counter.toNat - 1 = n - (counter.toNat - 1) - 1 := by omega
  simp only [reloads, hpred, hleft]
  split <;> split <;> first | rfl | omega

end

variable {α : Type}

/-- One clock of a counter that moves something on by `next` when it reloads. -/
def drive (next : α → α) (period : UInt16) (s : UInt16 × α) : UInt16 × α :=
  if s.1 = 0 then (period, next s.2) else (s.1 - 1, s.2)

/-- What a timer drives is moved on each time that it reloads. -/
theorem snd_drive_iterate (next : α → α) (t : Timer) (x : α) (n : Nat) :
    ((drive next t.period)^[n] (t.counter, x)).2 = next^[t.reloads n] x := by
  obtain ⟨period, counter⟩ := t
  induction n generalizing counter x with
  | zero =>
    rw [reloads, if_pos (Nat.zero_le _)]
    rfl
  | succ n ih =>
    rw [Function.iterate_succ_apply, drive]
    dsimp only
    split
    · next hzero => rw [hzero, reloads_zero, Function.iterate_succ_apply, ih]
    · next hne => rw [reloads_succ hne, ih]

/-- A channel made up, by `put`, of a counter and a position that the counter drives. -/
theorem position_iterate {C : Type} {clock : C → C} {put : UInt16 × α → C} {next : α → α}
    {t : Timer} (hclock : Function.Semiconj put (drive next t.period) clock) (position : C → α)
    (hposition : ∀ s, position (put s) = s.2) (x : α) (n : Nat) :
    position (clock^[n] (put (t.counter, x))) = next^[t.reloads n] x := by
  rw [← hclock.iterate_right n (t.counter, x), hposition, snd_drive_iterate]

end Timer

/-- A position in a waveform of `2 ^ k` steps after a number of steps. -/
theorem toNat_steps {mask : UInt8} {k : Nat} (hmask : mask.toNat = 2 ^ k - 1) (hk : k ≤ 8)
    {s : UInt8} (hs : s.toNat < 2 ^ k) (r : Nat) :
    ((fun s : UInt8 => (s + 1) &&& mask)^[r] s).toNat = (s.toNat + r) % 2 ^ k := by
  induction r with
  | zero => exact (Nat.mod_eq_of_lt hs).symm
  | succ r ih =>
    rw [Function.iterate_succ_apply', UInt8.toNat_and, hmask, Nat.and_two_pow_sub_one_eq_mod,
      UInt8.toNat_add, UInt8.toNat_one, Nat.mod_mod_of_dvd _ (Nat.pow_dvd_pow 2 hk), ih,
      Nat.mod_add_mod, Nat.add_assoc]

/-! ## Channels -/

/-- The position of a pulse channel in its waveform after `n` clocks of its timer. -/
theorem Pulse.dutyStep_iterate (p : Pulse) (n : Nat) :
    (clockTimer^[n] p).dutyStep =
      (fun s => (s + 1) &&& 0x07)^[p.timer.reloads n] p.dutyStep := by
  let next (s : UInt8) : UInt8 := (s + 1) &&& 0x07
  let put (s : UInt16 × UInt8) : Pulse := { p with timer := ⟨p.timer.period, s.1⟩, dutyStep := s.2 }
  have hclock : Function.Semiconj put (Timer.drive next p.timer.period) clockTimer := by
    rintro ⟨counter, step⟩
    by_cases hzero : counter = 0 <;> simp [put, Timer.drive, clockTimer, Timer.clock, next, hzero]
  exact Timer.position_iterate hclock dutyStep (fun _ => rfl) p.dutyStep n

/-- The shift register of a noise channel after `n` clocks of its timer. -/
theorem Noise.shift_iterate (c : Noise) (n : Nat) :
    (clockTimer^[n] c).shift = (feedback c.shortMode)^[c.timer.reloads n] c.shift := by
  let put (s : UInt16 × UInt16) : Noise := { c with timer := ⟨c.timer.period, s.1⟩, shift := s.2 }
  have hclock : Function.Semiconj put
      (Timer.drive (feedback c.shortMode) c.timer.period) clockTimer := by
    rintro ⟨counter, register⟩
    by_cases hzero : counter = 0 <;> simp [put, Timer.drive, clockTimer, Timer.clock, hzero]
  exact Timer.position_iterate hclock shift (fun _ => rfl) c.shift n

/-- The position of a triangle channel in its wave after `n` clocks of its timer.  The other
counters let the wave go on or hold it up throughout. -/
theorem Triangle.step_iterate (t : Triangle) (n : Nat) :
    (clockTimer^[n] t).step =
      (fun s => (s + 1) &&& 0x1F)^[if t.advancing then t.timer.reloads n else 0] t.step := by
  let next (s : UInt8) : UInt8 := if t.advancing then (s + 1) &&& 0x1F else s
  let put (s : UInt16 × UInt8) : Triangle :=
    { t with timer := ⟨t.timer.period, s.1⟩, step := s.2 }
  have hclock : Function.Semiconj put (Timer.drive next t.timer.period) clockTimer := by
    rintro ⟨counter, step⟩
    have hadvancing : (put (counter, step)).advancing = t.advancing := rfl
    rw [clockTimer, hadvancing]
    by_cases hzero : counter = 0 <;> simp [put, Timer.drive, Timer.clock, next, hzero]
  refine (Timer.position_iterate hclock step (fun _ => rfl) t.step n).trans ?_
  cases hadvances : t.advancing with
  | true => simp [next, hadvances]
  | false =>
    have hid : next = id := funext fun s => by simp [next, hadvances]
    rw [hid, Function.iterate_id]
    rfl

/-! ## The unit -/

/-- A pulse channel of the unit. -/
inductive PulseIndex
  | one
  | two
  deriving DecidableEq, Repr

namespace Apu

/-- The pulse channel with an index. -/
def pulse (a : Apu) : PulseIndex → Pulse
  | .one => a.pulse1
  | .two => a.pulse2

/-- The clocks among the next `n` that fall on an even cycle. -/
def evenCycles (a : Apu) (n : Nat) : Nat :=
  (List.range n).countP fun i => (a.runTimers (i + 1)).cpuCycle.toNat % 2 = 0

section

variable (a : Apu) (n : Nat)

theorem runTimers_eq_iterate : a.runTimers n = clockTimers^[n] a := by
  induction n generalizing a with
  | zero => rfl
  | succ n ih => exact ih a.clockTimers

theorem runTimers_succ : a.runTimers (n + 1) = (a.runTimers n).clockTimers := by
  rw [runTimers_eq_iterate, runTimers_eq_iterate, Function.iterate_succ_apply']

theorem cpuCycle_clockTimers : a.clockTimers.cpuCycle = a.cpuCycle + 1 := by
  unfold clockTimers
  dsimp only
  split <;> rfl

/-- Where the timers have their clocks. -/
theorem clockTimers_eq :
    a.clockTimers =
      if a.clockTimers.cpuCycle.toNat % 2 = 0 then
        { a with
          cpuCycle := a.cpuCycle + 1
          pulse1 := a.pulse1.clockTimer
          pulse2 := a.pulse2.clockTimer
          noise := a.noise.clockTimer
          triangle := a.triangle.clockTimer }
      else { a with cpuCycle := a.cpuCycle + 1, triangle := a.triangle.clockTimer } := by
  have heven : a.cpuCycle + 1 &&& 1 = 0 ↔ (a.cpuCycle + 1).toNat % 2 = 0 := by
    rw [← UInt64.toNat_inj, UInt64.toNat_and, UInt64.toNat_one, Nat.and_one_is_mod,
      UInt64.toNat_zero]
  rw [cpuCycle_clockTimers, clockTimers]
  simp only [heven]

theorem toNat_cpuCycle_runTimers :
    (a.runTimers n).cpuCycle.toNat = (a.cpuCycle.toNat + n) % 2 ^ 64 := by
  induction n with
  | zero => exact (Nat.mod_eq_of_lt a.cpuCycle.toNat_lt).symm
  | succ n ih =>
    rw [runTimers_succ, cpuCycle_clockTimers, UInt64.toNat_add, UInt64.toNat_one, ih,
      Nat.mod_add_mod, Nat.add_assoc]

theorem evenCycles_succ :
    a.evenCycles (n + 1) =
      a.evenCycles n + if (a.runTimers (n + 1)).cpuCycle.toNat % 2 = 0 then 1 else 0 := by
  rw [evenCycles, List.range_succ, List.countP_append, List.countP_singleton]
  simp only [decide_eq_true_eq]
  rfl

/-- Every other cycle is even, also where the count of cycles wraps. -/
theorem evenCycles_eq : a.evenCycles n = (a.cpuCycle.toNat + n) / 2 - a.cpuCycle.toNat / 2 := by
  induction n with
  | zero => exact (Nat.sub_self _).symm
  | succ n ih =>
    rw [evenCycles_succ, ih, toNat_cpuCycle_runTimers]
    split <;> omega

/-- The pulse and noise channels have the clocks of the even cycles, the triangle has all. -/
theorem channels_runTimers :
    (∀ i, (a.runTimers n).pulse i = Pulse.clockTimer^[a.evenCycles n] (a.pulse i)) ∧
      (a.runTimers n).noise = Noise.clockTimer^[a.evenCycles n] a.noise ∧
      (a.runTimers n).triangle = Triangle.clockTimer^[n] a.triangle := by
  -- on the number of clocks; which of them are even depends on where the count of cycles starts
  induction n with
  | zero => exact ⟨fun _ => rfl, rfl, rfl⟩
  | succ n ih =>
    obtain ⟨hpulse, hnoise, htriangle⟩ := ih
    have hclock := clockTimers_eq (a.runTimers n)
    rw [← runTimers_succ] at hclock
    have htriangle' : (a.runTimers (n + 1)).triangle = Triangle.clockTimer^[n + 1] a.triangle := by
      rw [Function.iterate_succ_apply', ← htriangle, hclock]
      split <;> rfl
    rw [evenCycles_succ]
    by_cases heven : (a.runTimers (n + 1)).cpuCycle.toNat % 2 = 0
    · rw [if_pos heven] at hclock ⊢
      refine ⟨fun i => ?_, ?_, htriangle'⟩
      · rw [Function.iterate_succ_apply', ← hpulse i, hclock]
        cases i <;> rfl
      · rw [Function.iterate_succ_apply', ← hnoise, hclock]
    · rw [if_neg heven] at hclock ⊢
      refine ⟨fun i => Eq.trans ?_ (hpulse i), Eq.trans ?_ hnoise, htriangle'⟩
      · rw [hclock]
        cases i <;> rfl
      · rw [hclock]

end

variable {Saved : Apu → Prop} {a : Apu}

/-- **How fast the timers run.**  Of `n` clocks of the timers, `m` fall on even cycles.  Whatever
the counters hold when they start, each pulse channel has come on in its waveform by as many steps
as its timer reloads in `m` clocks, and the shift register of the noise channel has been shifted as
often as the timer of that channel does; the triangle channel has come on in its wave by as many
steps as its timer reloads in `n` clocks, if its length and linear counters have time left and its
period is above one, and else stays where it is. -/
theorem timer_rates (h : a.Reached Saved) (n : Nat) :
    let b := a.runTimers n
    let m := a.evenCycles n
    m = (a.cpuCycle.toNat + n) / 2 - a.cpuCycle.toNat / 2 ∧
    (∀ i, (b.pulse i).dutyStep.toNat =
      ((a.pulse i).dutyStep.toNat + (a.pulse i).timer.reloads m) % 8) ∧
    b.noise.shift = (Noise.feedback a.noise.shortMode)^[a.noise.timer.reloads m] a.noise.shift ∧
    (a.triangle.length.count ≠ 0 ∧ a.triangle.linear.count ≠ 0 ∧ 1 < a.triangle.timer.period →
      b.triangle.step.toNat = (a.triangle.step.toNat + a.triangle.timer.reloads n) % 32) ∧
    (¬(a.triangle.length.count ≠ 0 ∧ a.triangle.linear.count ≠ 0 ∧ 1 < a.triangle.timer.period) →
      b.triangle.step = a.triangle.step) := by
  intro b m
  have hrange : a.channels.InRange := h.inRange
  obtain ⟨hpulse, hnoise, htriangle⟩ := a.channels_runTimers n
  have hadvancing : a.triangle.advancing = true ↔
      a.triangle.length.count ≠ 0 ∧ a.triangle.linear.count ≠ 0 ∧ 1 < a.triangle.timer.period := by
    simp [Triangle.advancing, LengthCounter.running, and_assoc]
  refine ⟨a.evenCycles_eq n, fun i => ?_, ?_, fun hadvances => ?_, fun hheld => ?_⟩
  · have hstep : (a.pulse i).dutyStep.toNat < 2 ^ 3 := by
      cases i with
      | one => exact hrange.pulse1.dutyStep
      | two => exact hrange.pulse2.dutyStep
    rw [hpulse, Pulse.dutyStep_iterate]
    exact toNat_steps rfl (by decide) hstep _
  · rw [hnoise, Noise.shift_iterate]
  · rw [htriangle, Triangle.step_iterate, if_pos (hadvancing.mpr hadvances)]
    exact toNat_steps rfl (by decide) hrange.triangle.step _
  · rw [htriangle, Triangle.step_iterate, if_neg (hadvancing.not.mpr hheld)]
    rfl

/-- A noise channel whose period is cut while 4068 clocks are left shifts twice in 4075 of them,
while the first pulse, at a period of 9, goes through its waveform 51 times, and the triangle, which
has its clocks twice as often, at a period of 9 takes 815 steps.  Before it was enabled the triangle
stayed where it was. -/
theorem timer_rates_shortened :
    let a := (((powerOn.write 0x400E 0x0F).runTimers 2).write 0x400E 0x00).write 0x4002 0x09
    let b := ((((a.write 0x4015 0x04).write 0x4008 0x81).write 0x400A 0x09).write 0x400B
      0x08).stepSequencer
    b.Reached (fun _ => False) ∧
      b.noise.timer = ⟨4, 4068⟩ ∧ b.noise.shift = 0x4000 ∧
      (b.runTimers 8150).noise.shift = 0x1000 ∧
      (b.pulse .one).dutyStep.toNat = 1 ∧
      ((b.runTimers 8150).pulse .one).dutyStep.toNat = (1 + 51 * 8) % 8 ∧
      (b.runTimers 8150).triangle.step.toNat = 815 % 32 ∧
      (a.runTimers 8150).triangle.step = 0 := by
  intro a b
  have ha : a.Reached (fun _ => False) :=
    ((((Reached.powerOn.moved (.act (.write 0x400E 0x0F))).moved .clockTimers).moved
      .clockTimers).moved (.act (.write 0x400E 0x00))).moved (.act (.write 0x4002 0x09))
  have hb : b.Reached (fun _ => False) :=
    ((((ha.moved (.act (.write 0x4015 0x04))).moved (.act (.write 0x4008 0x81))).moved
      (.act (.write 0x400A 0x09))).moved (.act (.write 0x400B 0x08))).moved (.act .stepSequencer)
  obtain ⟨-, -, -, -, hheld⟩ := timer_rates ha 8150
  obtain ⟨heven, hpulse, hnoise, hadvances, -⟩ := timer_rates hb 8150
  have hstart : b.cpuCycle.toNat = 2 := rfl
  have hcycles : b.evenCycles 8150 = 4075 := by rw [heven, hstart]
  have hnoiseReloads : b.noise.timer.reloads 4075 = 2 := by decide
  have hpulseReloads : (b.pulse .one).timer.reloads 4075 = 51 * 8 := by decide
  have htriangleReloads : b.triangle.timer.reloads 8150 = 815 := by decide
  have hone := hpulse .one
  have htriangle := hadvances (by decide)
  rw [hcycles, hpulseReloads] at hone
  rw [hcycles, hnoiseReloads] at hnoise
  rw [htriangleReloads] at htriangle
  exact ⟨hb, rfl, rfl, hnoise.trans (by decide), rfl, hone, htriangle, hheld (by decide)⟩

end Apu

end Famicom.Sound
