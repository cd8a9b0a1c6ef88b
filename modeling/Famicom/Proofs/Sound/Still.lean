import Famicom.Sound.Apu

/-!
# The audio unit without its running timers

Pulling samples runs the channel timers.  What they run — the timers' own counters, the position in
each waveform, the shift register of the noise channel, the counted cycles, the debt of a fraction
of a clock and the remembered samples — is left out of a unit by `still`.  Everything else stays:
enable flags, length counters, envelopes, sweeps, periods, the linear counter, the sequencer, sample
rate and mixing law.

* `still_runTimers`, `still_samples` — running timers and pulling samples change nothing but what
  is left out, however many clocks are run.
* `still_write`, `still_stepSequencer` — neither does a register that is written or a step of the
  sequencer depend on what is left out.
-/

namespace Famicom.Sound

/-! ## Channels -/

namespace Timer

/-- The timer with nothing left before it reloads. -/
def still (t : Timer) : Timer := { t with counter := 0 }

/-- A clock moves the counter of a timer, and nothing else. -/
@[simp] theorem still_clock (t : Timer) : t.clock.2.still = t.still := by
  unfold clock
  split <;> rfl

end Timer

namespace Pulse

/-- The channel at the start of its waveform. -/
def still (p : Pulse) : Pulse := { p with timer := p.timer.still, dutyStep := 0 }

@[simp] theorem still_clockTimer (p : Pulse) : p.clockTimer.still = p.still := by
  simp only [clockTimer, still, Timer.still_clock]

end Pulse

namespace Triangle

/-- The channel at the start of its wave. -/
def still (t : Triangle) : Triangle := { t with timer := t.timer.still, step := 0 }

@[simp] theorem still_clockTimer (t : Triangle) : t.clockTimer.still = t.still := by
  simp only [clockTimer, still, Timer.still_clock]

end Triangle

namespace Noise

/-- The channel with an empty shift register. -/
def still (n : Noise) : Noise := { n with timer := n.timer.still, shift := 0 }

@[simp] theorem still_clockTimer (n : Noise) : n.clockTimer.still = n.still := by
  simp only [clockTimer, still, Timer.still_clock]

end Noise

namespace Apu

/-- The unit without what its timers run. -/
def still (a : Apu) : Apu :=
  { a with
    pulse1 := a.pulse1.still
    pulse2 := a.pulse2.still
    triangle := a.triangle.still
    noise := a.noise.still
    cpuCycle := 0
    cycleDebt := 0
    memo := .empty }

/-! ## Running timers -/

/-- Clocking the timers does not show in what stands still. -/
theorem still_clockTimers (a : Apu) : a.clockTimers.still = a.still := by
  unfold clockTimers
  dsimp only
  split <;>
    simp only [still, Pulse.still_clockTimer, Triangle.still_clockTimer, Noise.still_clockTimer]

/-- Nor does running them for any time, by induction on it. -/
theorem still_runTimers (n : Nat) (a : Apu) : (a.runTimers n).still = a.still := by
  induction n generalizing a with
  | zero => rfl
  | succ n ih => exact (ih a.clockTimers).trans a.still_clockTimers

theorem still_sample (a : Apu) : a.sample.2.still = a.still :=
  still_runTimers a.accrue.1 a.accrue.2

theorem still_samplesOnto (buffer : Array UInt8) (n : Nat) (a : Apu) :
    (a.samplesOnto buffer n).2.still = a.still := by
  induction n generalizing buffer a with
  | zero => rfl
  | succ n ih => exact (ih _ a.sample.2).trans a.still_sample

theorem still_samples (n : Nat) (a : Apu) : (a.samples n).2.still = a.still :=
  a.still_samplesOnto #[] n

/-! ## Steps and registers -/

/-- The frames clock lengths, envelopes and sweeps, whatever the timers do. -/
theorem still_clockFrame (a : Apu) (clocks : Beat) :
    (a.clockFrame clocks).still = a.still.clockFrame clocks := by
  obtain ⟨quarter, half⟩ := clocks
  cases quarter <;> cases half <;> rfl

theorem still_stepSequencer (a : Apu) : a.stepSequencer.still = a.still.stepSequencer :=
  still_clockFrame _ _

/-- What a register does to the channel does not depend on where its timer stands. -/
theorem still_write (a : Apu) (addr : UInt16) (value : UInt8) :
    (a.write addr value).still = a.still.write addr value := by
  unfold write
  split
  case h_16 => exact still_clockFrame _ _
  all_goals rfl

end Apu

end Famicom.Sound
