import Famicom.Proofs.Sound.Beats
import Mathlib.Logic.Function.Iterate

/-!
# Length counters and silence

The four channels share one kind of length counter.  What a move does to the counter of a channel
depends on that channel's registers, its bit of the status register and the half frames; a program
sees from the status byte which counters have time left, and a channel is heard only while its own
has.

* `Channel`, `Apu.length` — the counters of the four channels.
* `Apu.length_moved` — what a move does to a counter.
* `LengthCounter.Grounded` — a disabled channel has no time left.
* `Apu.length_run` — a run without writes counts the half frames down.
* `Apu.length_counters` — all of it.
-/

namespace Famicom.Sound

open Apu (Act Move)

/-- A channel of the audio unit. -/
inductive Channel
  | pulse1
  | pulse2
  | triangle
  | noise
  deriving DecidableEq, Repr

namespace Channel

/-- The register with the flag that halts the length counter. -/
def control : Channel → UInt16
  | pulse1 => 0x4000
  | pulse2 => 0x4004
  | triangle => 0x4008
  | noise => 0x400C

/-- The flag that halts the length counter. -/
def haltMask : Channel → UInt8
  | triangle => 0x80
  | _ => 0x20

/-- The register that loads the length counter. -/
def loader : Channel → UInt16
  | pulse1 => 0x4003
  | pulse2 => 0x4007
  | triangle => 0x400B
  | noise => 0x400F

theorem loader_ne (ch : Channel) : ch.loader ≠ 0x4017 := by
  cases ch <;> decide

/-- The channel's bit of the status register. -/
def statusMask : Channel → UInt8
  | pulse1 => 0x01
  | pulse2 => 0x02
  | triangle => 0x04
  | noise => 0x08

end Channel

namespace Apu

/-- The length counter of a channel. -/
def length (a : Apu) : Channel → LengthCounter
  | .pulse1 => a.pulse1.length
  | .pulse2 => a.pulse2.length
  | .triangle => a.triangle.length
  | .noise => a.noise.length

/-- The level that a channel puts out. -/
def levelOf (a : Apu) : Channel → UInt8
  | .pulse1 => a.levels.pulse1
  | .pulse2 => a.levels.pulse2
  | .triangle => a.levels.triangle
  | .noise => a.levels.noise

/-- The channel's bit is set in the status byte. -/
def plays (a : Apu) (ch : Channel) : Bool := hasBits a.readStatus.1 ch.statusMask

end Apu

/-! ## What moves do to a length counter -/

namespace LengthCounter

/-- The counter of a channel after a write to a register. -/
def written (l : LengthCounter) (ch : Channel) (addr : UInt16) (value : UInt8) : LengthCounter :=
  if addr = ch.loader then l.load value
  else if addr = ch.control then { l with halt := hasBits value ch.haltMask }
  else if addr = 0x4015 then l.enable (hasBits value ch.statusMask)
  else l

/-- The counter of a channel after all of a move but its clocks. -/
def prepared (l : LengthCounter) (ch : Channel) : Move → LengthCounter
  | .act (.write addr value) => l.written ch addr value
  | .act .reset => .powerOn
  | _ => l

end LengthCounter

namespace Apu

variable (a : Apu) (ch : Channel)

/-- Of a beat only its half frame matters to a length counter. -/
theorem length_clockFrame (clocks : Beat) :
    (a.clockFrame clocks).length ch =
      if clocks.half then (a.length ch).clock else a.length ch := by
  obtain ⟨quarter, half⟩ := clocks
  cases quarter <;> cases half <;> cases ch <;> rfl

/-- A write reaches the counter of the channel by its control, its load or the status. -/
theorem length_write {addr : UInt16} (haddr : addr ≠ 0x4017) (value : UInt8) :
    (a.write addr value).length ch = (a.length ch).written ch addr value := by
  unfold write
  split
  case h_16 => exact absurd rfl haddr
  case h_17 =>
    -- the address is no register
    cases ch <;> rw [LengthCounter.written, if_neg, if_neg, if_neg] <;> first | rfl | assumption
  all_goals cases ch <;> rfl

theorem length_prepared (m : Move) :
    (a.prepared m).length ch = (a.length ch).prepared ch m := by
  have hsame (hwrites : m.writes = false) (hresets : m.resets = false) :
      (a.prepared m).length ch = a.length ch := by
    have hchannels := a.channels_prepared hwrites hresets
    cases ch with
    | pulse1 => exact congrArg (·.pulse1.length) hchannels
    | pulse2 => exact congrArg (·.pulse2.length) hchannels
    | triangle => exact congrArg (·.triangle.length) hchannels
    | noise => exact congrArg (·.noise.length) hchannels
  -- only writes and resets prepare anything; the frame counter is not a register of a channel
  cases m with
  | act act =>
    cases act with
    | write addr value =>
      by_cases haddr : addr = 0x4017
      · subst haddr
        cases ch <;> rfl
      · rw [prepared, if_neg haddr, length_write a ch haddr, LengthCounter.prepared]
    | reset => cases ch <;> rfl
    | _ => exact hsame rfl rfl
  | clockTimers => exact hsame rfl rfl

/-- The counter of a channel after a move. -/
theorem length_moved (m : Move) :
    (a.moved m).length ch =
      if (a.sequencer.beat m).half then ((a.length ch).prepared ch m).clock
      else (a.length ch).prepared ch m := by
  rw [moved_eq_clockFrame, length_clockFrame, length_prepared]

end Apu

/-! ## Disabled channels -/

namespace LengthCounter

/-- A disabled channel has no time left. -/
def Grounded (l : LengthCounter) : Prop := l.enabled = false → l.count = 0

variable {l : LengthCounter}

theorem Grounded.clock (h : l.Grounded) : l.clock.Grounded := by
  intro hdisabled
  unfold LengthCounter.clock at hdisabled ⊢
  split
  · next hrunning =>
    rw [if_pos hrunning] at hdisabled
    simp [running, h hdisabled] at hrunning
  · next hstays =>
    rw [if_neg hstays] at hdisabled
    exact h hdisabled

/-- A counter is loaded only while its channel is enabled. -/
theorem Grounded.written (h : l.Grounded) (ch : Channel) (addr : UInt16) (value : UInt8) :
    (l.written ch addr value).Grounded := by
  unfold LengthCounter.written
  split
  · intro hdisabled
    unfold load at hdisabled ⊢
    split
    · next henabled =>
      rw [if_pos henabled] at hdisabled
      exact absurd (henabled.symm.trans hdisabled) Bool.noConfusion
    · next hnot =>
      exact h (Bool.eq_false_iff.mpr hnot)
  · split
    · exact h
    · split
      · intro hdisabled
        exact if_neg (Bool.eq_false_iff.mp hdisabled)
      · exact h

theorem Grounded.prepared (h : l.Grounded) (ch : Channel) (m : Move) :
    (l.prepared ch m).Grounded := by
  cases m with
  | act act =>
    cases act with
    | write addr value => exact h.written ch addr value
    | reset => exact fun _ => rfl
    | _ => exact h
  | clockTimers => exact h

end LengthCounter

namespace Apu

theorem grounded_moved {a : Apu} {ch : Channel} (h : (a.length ch).Grounded) (m : Move) :
    ((a.moved m).length ch).Grounded := by
  rw [length_moved]
  split
  · exact (h.prepared ch m).clock
  · exact h.prepared ch m

/-- In every run from power-on a disabled channel has no time left. -/
theorem grounded_run (moves : List Move) (ch : Channel) :
    ((moves.foldl moved powerOn).length ch).Grounded := by
  have hstart : (powerOn.length ch).Grounded := fun _ => by cases ch <;> rfl
  exact List.foldlRecOn (motive := fun a => (a.length ch).Grounded) moves moved hstart
    fun _ h m _ => grounded_moved h m

end Apu

/-! ## What is seen and heard -/

namespace Apu

variable (a : Apu) (ch : Channel)

/-- A channel's bit of the status byte tells whether it has time left. -/
theorem plays_eq_running : a.plays ch = (a.length ch).running := by
  have hbits (p q t n i : Bool) :
      let status : UInt8 := (if p then 0x01 else 0) ||| (if q then 0x02 else 0)
        ||| (if t then 0x04 else 0) ||| (if n then 0x08 else 0) ||| (if i then 0x40 else 0)
      hasBits status 0x01 = p ∧ hasBits status 0x02 = q ∧ hasBits status 0x04 = t ∧
        hasBits status 0x08 = n := by
    revert p q t n i
    decide
  obtain ⟨hpulse1, hpulse2, htriangle, hnoise⟩ := hbits a.pulse1.length.running
    a.pulse2.length.running a.triangle.length.running a.noise.length.running a.sequencer.irqFlag
  cases ch
  · exact hpulse1
  · exact hpulse2
  · exact htriangle
  · exact hnoise

/-- A channel without time left is silent. -/
theorem levelOf_eq_zero (h : (a.length ch).running = false) : a.levelOf ch = 0 := by
  cases ch with
  | pulse1 =>
    have hrunning : a.pulse1.length.running = false := h
    simp [levelOf, levels, Pulse.level, hrunning]
  | pulse2 =>
    have hrunning : a.pulse2.length.running = false := h
    simp [levelOf, levels, Pulse.level, hrunning]
  | triangle =>
    have hrunning : a.triangle.length.running = false := h
    simp [levelOf, levels, Triangle.level, hrunning]
  | noise =>
    have hrunning : a.noise.length.running = false := h
    simp [levelOf, levels, Noise.level, hrunning]

end Apu

/-! ## Counting down -/

namespace LengthCounter

variable {l : LengthCounter}

/-- A channel has time left if its counter is above zero. -/
theorem running_iff : l.running = true ↔ 0 < l.count.toNat := by
  rw [running, bne_iff_ne, Ne, ← UInt8.toNat_inj, UInt8.toNat_zero, Nat.pos_iff_ne_zero]

theorem toNat_count_clock (h : l.halt = false) : l.clock.count.toNat = l.count.toNat - 1 := by
  have hlt := l.count.toNat_lt
  unfold clock
  split
  · next hrunning =>
    have hpos : 0 < l.count.toNat := running_iff.mp (by simpa [h] using hrunning)
    rw [UInt8.toNat_sub, UInt8.toNat_one]
    omega
  · next hstops =>
    have hzero : ¬0 < l.count.toNat := fun hpos =>
      hstops (by simpa [h] using running_iff.mpr hpos)
    omega

/-- An empty counter stays empty. -/
theorem clock_of_empty (h : l.count = 0) : l.clock = l := by
  rw [clock, running, h]
  simp

theorem halt_clock (l : LengthCounter) : l.clock.halt = l.halt := by
  unfold clock
  split <;> rfl

/-- A counter that is not halted counts down and stays at zero. -/
theorem toNat_count_iterate (h : l.halt = false) (n : Nat) :
    (clock^[n] l).count.toNat = l.count.toNat - n := by
  induction n generalizing l with
  | zero => rfl
  | succ n ih =>
    rw [Function.iterate_succ_apply, ih ((halt_clock l).trans h), toNat_count_clock h]
    omega

/-- A halted counter stays where it is. -/
theorem iterate_of_halt (h : l.halt = true) (n : Nat) : clock^[n] l = l := by
  refine Function.iterate_fixed ?_ n
  rw [clock, h]
  rfl

/-- The half frames that a write to a loading register stands for. -/
def loaded (value : UInt8) : Nat := (lengthLoads.get (.ofNat 32 (value >>> 3).toNat)).toNat

/-- Every entry of the table is some time. -/
theorem loaded_pos (value : UInt8) : 0 < loaded value := by
  have hall : ∀ i : Fin 32, 0 < (lengthLoads.get i).toNat := by decide
  exact hall (.ofNat 32 (value >>> 3).toNat)

theorem load_eq (h : l.enabled = true) (value : UInt8) :
    (l.load value).halt = l.halt ∧ (l.load value).count.toNat = loaded value := by
  rw [load, if_pos h]
  exact ⟨rfl, rfl⟩

end LengthCounter

/-! ## Runs without writes -/

namespace Apu

namespace Move

theorem eq_reset_of_resets {m : Move} (h : m.resets = true) : m = .act .reset := by
  cases m with
  | act act =>
    cases act with
    | reset => rfl
    | _ => cases h
  | clockTimers => cases h

/-- Without writes and resets the sequencer is not restarted. -/
theorem cycle?_eq_none {m : Move} (hwrites : m.writes = false) (hresets : m.resets = false) :
    m.cycle? = none := by
  cases m with
  | act act =>
    cases act with
    | write => cases hwrites
    | reset => cases hresets
    | _ => rfl
  | clockTimers => rfl

theorem prepared_eq {m : Move} (hwrites : m.writes = false) (hresets : m.resets = false)
    (l : LengthCounter) (ch : Channel) : l.prepared ch m = l := by
  cases m with
  | act act =>
    cases act with
    | write => cases hwrites
    | reset => cases hresets
    | _ => rfl
  | clockTimers => rfl

end Move

variable {a : Apu} {moves : List Move}

/-- Without writes and resets a counter counts the half frames of the run. -/
theorem length_run (hwrites : ∀ m ∈ moves, m.writes = false)
    (hresets : ∀ m ∈ moves, m.resets = false) (ch : Channel) :
    (moves.foldl moved a).length ch = LengthCounter.clock^[a.halves moves] (a.length ch) := by
  induction moves generalizing a with
  | nil => rfl
  | cons m rest ih =>
    obtain ⟨hwrite, hwrites⟩ := List.forall_mem_cons.mp hwrites
    obtain ⟨hreset, hresets⟩ := List.forall_mem_cons.mp hresets
    have hmoved : (a.moved m).length ch =
        LengthCounter.clock^[if (a.sequencer.beat m).half then 1 else 0] (a.length ch) := by
      rw [length_moved, Move.prepared_eq hwrite hreset]
      split <;> rfl
    rw [List.foldl_cons, ih hwrites hresets, hmoved, ← Function.iterate_add_apply, Nat.add_comm]
    rfl

/-- A counter at zero stays there until it is written to. -/
theorem count_moved_zero {m : Move} (hwrites : m.writes = false) {ch : Channel}
    (h : (a.length ch).count = 0) : ((a.moved m).length ch).count = 0 := by
  have hprepared : ((a.length ch).prepared ch m).count = 0 := by
    cases hresets : m.resets with
    | false => rw [Move.prepared_eq hwrites hresets, h]
    | true =>
      rw [Move.eq_reset_of_resets hresets]
      rfl
  rw [length_moved]
  split
  · rw [LengthCounter.clock_of_empty hprepared, hprepared]
  · exact hprepared

/-- Without writes no time is added. -/
theorem count_run_zero (hwrites : ∀ m ∈ moves, m.writes = false) {ch : Channel}
    (h : (a.length ch).count = 0) : ((moves.foldl moved a).length ch).count = 0 :=
  List.foldlRecOn (motive := fun a => (a.length ch).count = 0) moves moved h
    fun _ h m hm => count_moved_zero (hwrites m hm) h

/-- A reset empties the counters. -/
theorem count_run_reset (hwrites : ∀ m ∈ moves, m.writes = false)
    (hresets : ∃ m ∈ moves, m.resets = true) (ch : Channel) :
    ((moves.foldl moved a).length ch).count = 0 := by
  obtain ⟨m, hm, hreset⟩ := hresets
  obtain ⟨before, after, rfl⟩ := List.append_of_mem hm
  obtain rfl := Move.eq_reset_of_resets hreset
  rw [List.foldl_append, List.foldl_cons]
  refine count_run_zero (fun m' hm' => hwrites m' ?_) ?_
  · exact List.mem_append_right before (List.mem_cons_of_mem _ hm')
  · cases ch <;> rfl

/-- While nothing is written, a channel plays until the half frames have used its time up or the
unit is reset. -/
theorem plays_run_iff (hwrites : ∀ m ∈ moves, m.writes = false) (ch : Channel) :
    (moves.foldl moved a).plays ch = true ↔
      (∀ m ∈ moves, m.resets = false) ∧
        (LengthCounter.clock^[a.halves moves] (a.length ch)).running = true := by
  rw [plays_eq_running]
  by_cases hresets : ∀ m ∈ moves, m.resets = false
  · rw [length_run hwrites hresets]
    exact (and_iff_right hresets).symm
  · have hreset : ∃ m ∈ moves, m.resets = true := by simpa using hresets
    have hempty : ¬((moves.foldl moved a).length ch).running = true := by
      rw [LengthCounter.running, count_run_reset hwrites hreset ch]
      decide
    exact iff_of_false hempty fun h => hresets h.1

theorem length_load (a : Apu) (ch : Channel) (value : UInt8) :
    (a.write ch.loader value).length ch = (a.length ch).load value := by
  rw [length_write a ch ch.loader_ne, LengthCounter.written, if_pos rfl]

/-- **Length counters, the status byte and silence.**  In every run from power-on a disabled channel
has no time left; the status byte has a bit set just for each channel that has time left; and only
such a channel is heard.  When time is loaded into a channel that is enabled, and nothing is written
from there on, its bit is set exactly while fewer half frames have been clocked than were loaded and
the unit has not been reset: with the sequencer at the start of a four-step cycle, while it has
taken fewer than twice as many steps.  If the counter is halted, the bit stays set until a
reset. -/
theorem length_counters (moves : List Move) (ch : Channel) :
    let a := moves.foldl moved powerOn
    ((a.length ch).enabled = false → (a.length ch).count = 0) ∧
    (a.plays ch = true ↔ (a.length ch).count ≠ 0) ∧
    (a.levelOf ch ≠ 0 → a.plays ch = true) ∧
    ∀ (value : UInt8) (later : List Move),
      (a.length ch).enabled = true → (∀ m ∈ later, m.writes = false) →
      let b := a.write ch.loader value
      let c := later.foldl moved b
      let untilReset := ∀ m ∈ later, m.resets = false
      ((a.length ch).halt = false →
        (c.plays ch = true ↔ untilReset ∧ b.halves later < LengthCounter.loaded value) ∧
        (a.sequencer.fiveStep = false → a.sequencer.step = 0 →
          (c.plays ch = true ↔
            untilReset ∧ later.countP Move.steps < 2 * LengthCounter.loaded value))) ∧
      ((a.length ch).halt = true → (c.plays ch = true ↔ untilReset)) := by
  intro a
  refine ⟨grounded_run moves ch, ?_, ?_, ?_⟩
  · rw [plays_eq_running, LengthCounter.running, bne_iff_ne]
  · intro hheard
    rw [plays_eq_running]
    by_contra hempty
    exact hheard (levelOf_eq_zero a ch (Bool.eq_false_iff.mpr hempty))
  · intro value later henabled hwrites b c untilReset
    obtain ⟨hhalt, hcount⟩ := LengthCounter.load_eq henabled value
    have hplays : c.plays ch = true ↔ untilReset ∧
        (LengthCounter.clock^[b.halves later] ((a.length ch).load value)).running = true := by
      rw [← length_load a ch value]
      exact plays_run_iff hwrites ch
    refine ⟨fun hruns => ?_, fun hhalted => ?_⟩
    · have htime : c.plays ch = true ↔
          untilReset ∧ b.halves later < LengthCounter.loaded value := by
        rw [hplays, LengthCounter.running_iff,
          LengthCounter.toNat_count_iterate (hhalt.trans hruns), hcount, Nat.sub_pos_iff_lt]
      refine ⟨htime, fun hfour hstart => htime.trans (and_congr_right fun hkept => ?_)⟩
      have hpaced : b.sequencer.Paced false 0 := by
        rw [sequencer_write ch.loader_ne]
        exact ⟨hfour, by rw [hstart]; rfl⟩
      have hmoves : ∀ m ∈ later, m.cycle? = none := fun m hm =>
        Move.cycle?_eq_none (hwrites m hm) (hkept m hm)
      have hhalves : b.halves later = later.countP Move.steps / 2 :=
        (counted_of_start hpaced hmoves).2.2
      rw [hhalves]
      omega
    · rw [hplays, LengthCounter.iterate_of_halt (hhalt.trans hhalted), LengthCounter.running_iff,
        hcount]
      exact and_iff_left (LengthCounter.loaded_pos value)

/-- Two half frames, the shortest time there is, end with the fourth step. -/
theorem length_counters_shortest :
    let a := powerOn.write 0x4015 0x0F
    let b := a.write 0x4003 0x18
    let steps (n : Nat) := List.replicate n (Move.act .stepSequencer)
    (a.length .pulse1).enabled = true ∧ (a.length .pulse1).halt = false ∧
      ((steps 3).foldl moved b).plays .pulse1 = true ∧
      ((steps 4).foldl moved b).plays .pulse1 = false := by
  intro a b steps
  have hsteps (n : Nat) : ∀ m ∈ steps n, m.writes = false ∧ m.resets = false := by
    intro m hm
    rw [List.eq_of_mem_replicate hm]
    exact ⟨rfl, rfl⟩
  have hplays (n : Nat) : ((steps n).foldl moved b).plays .pulse1 = true ↔
      (∀ m ∈ steps n, m.resets = false) ∧ (steps n).countP Move.steps < 4 :=
    ((length_counters [.act (.write 0x4015 0x0F)] .pulse1).2.2.2 0x18 (steps n) rfl
      fun m hm => (hsteps n m hm).1).1 rfl |>.2 rfl rfl
  refine ⟨rfl, rfl, (hplays 3).mpr ⟨fun m hm => (hsteps 3 m hm).2, by decide⟩, ?_⟩
  rw [Bool.eq_false_iff, Ne, hplays 4]
  exact fun h => absurd h.2 (by decide)

end Apu

end Famicom.Sound
