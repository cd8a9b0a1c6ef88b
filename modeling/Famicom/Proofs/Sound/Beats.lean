import Famicom.Proofs.Sound.Safety
import Famicom.Proofs.Sound.Still
import Mathlib.Data.List.Induction

/-!
# The beat of the frame sequencer

The sequencer is all there is of time in the slow units of the channels: a move of the audio unit
clocks them if it steps the sequencer, or if it chooses the five-step cycle.  When the channels are
clocked can therefore be told from the moves alone, and so can the interrupt.

* `Apu.moved_eq_clockFrame` — what a move clocks is its beat.
* `Sequencer.irqFlag_moved`, `Apu.irqPending_run_iff` — the interrupt is pending if it has been
  raised and not been dropped since.
* `Sequencer.Paced` — where the sequencer stands after a number of steps; `Sequencer.Paced.advance`
  — what the next step clocks.
* `Apu.counted_of_paced` — what a run clocks.
* `Apu.sequencer_law` — all of it.
-/

namespace Famicom.Sound

open Apu (Act Move)

/-! ## What moves do to the sequencer -/

namespace Apu.Move

/-- The move writes a register. -/
def writes : Move → Bool
  | .act (.write _ _) => true
  | _ => false

/-- The move resets the unit. -/
def resets : Move → Bool
  | .act .reset => true
  | _ => false

/-- The move steps the sequencer. -/
def steps : Move → Bool
  | .act .stepSequencer => true
  | _ => false

/-- The cycle that the move chooses, if it starts the sequencer over: whether it has five steps. -/
def cycle? : Move → Option Bool
  | .act (.write addr value) => if addr = 0x4017 then some (hasBits value 0x80) else none
  | .act .reset => some false
  | _ => none

/-- The move drops the interrupt: it reads the status, inhibits the interrupt, or resets the
unit. -/
def dropsIrq : Move → Bool
  | .act .readStatus => true
  | .act (.write addr value) => addr = 0x4017 && hasBits value 0x40
  | .act .reset => true
  | _ => false

end Apu.Move

namespace Sequencer

/-- The sequencer after a move. -/
def moved (s : Sequencer) : Move → Sequencer
  | .act .stepSequencer => s.advance.2
  | .act (.write addr value) => if addr = 0x4017 then s.writeControl value else s
  | .act .readStatus => s.acknowledge
  | .act .reset => .powerOn
  | _ => s

/-- What a move clocks. -/
def beat (s : Sequencer) : Move → Beat
  | .act .stepSequencer => s.advance.1
  | .act (.write addr value) =>
    if addr = 0x4017 then ⟨hasBits value 0x80, hasBits value 0x80⟩ else ⟨false, false⟩
  | _ => ⟨false, false⟩

end Sequencer

namespace Apu

/-- The unit after all of a move but its clocks. -/
def prepared (a : Apu) : Move → Apu
  | .act .stepSequencer => { a with sequencer := a.sequencer.advance.2 }
  | .act (.write addr value) =>
    if addr = 0x4017 then { a with sequencer := a.sequencer.writeControl value }
    else a.write addr value
  | m => a.moved m

/-- A move clocks its beat, and that comes last. -/
theorem moved_eq_clockFrame (a : Apu) (m : Move) :
    a.moved m = (a.prepared m).clockFrame (a.sequencer.beat m) := by
  cases m with
  | act act =>
    cases act with
    | write addr value =>
      by_cases haddr : addr = 0x4017
      · subst haddr
        rfl
      · simp only [prepared, Sequencer.beat, if_neg haddr]
        rfl
    | _ => rfl
  | clockTimers => rfl

/-- Nothing but writes and resets reaches what the channels hold beside their running timers. -/
theorem channels_prepared (a : Apu) {m : Move} (hwrites : m.writes = false)
    (hresets : m.resets = false) :
    (a.prepared m).still.channels =
      { a.still.channels with sequencer := (a.prepared m).sequencer } := by
  have hstill {b : Apu} (h : b.still = a.still) :
      b.still.channels = { a.still.channels with sequencer := b.sequencer } := by
    rw [← h]
    rfl
  cases m with
  | act act =>
    cases act with
    | write => cases hwrites
    | reset => cases hresets
    | samples n => exact hstill (still_samples n a)
    | withMixing mixing =>
      change (a.withMixing mixing).still.channels =
        { a.still.channels with sequencer := (a.withMixing mixing).sequencer }
      unfold withMixing
      split <;> rfl
    | stepSequencer | readStatus | withSampleRate => rfl
  | clockTimers => exact hstill (still_clockTimers a)

@[simp] theorem sequencer_clockFrame (a : Apu) (clocks : Beat) :
    (a.clockFrame clocks).sequencer = a.sequencer := by
  obtain ⟨quarter, half⟩ := clocks
  cases quarter <;> cases half <;> rfl

/-- Only the mode register reaches the sequencer. -/
theorem sequencer_write {addr : UInt16} (h : addr ≠ 0x4017) (a : Apu) (value : UInt8) :
    (a.write addr value).sequencer = a.sequencer := by
  unfold write
  split
  case h_16 => exact absurd rfl h
  all_goals rfl

theorem sequencer_moved (a : Apu) (m : Move) :
    (a.moved m).sequencer = a.sequencer.moved m := by
  have hstill {b : Apu} (h : b.still = a.still) : b.sequencer = a.sequencer := by
    have hsame := congrArg Apu.sequencer h
    exact hsame
  cases m with
  | act act =>
    cases act with
    | write addr value =>
      by_cases haddr : addr = 0x4017
      · subst haddr
        exact sequencer_clockFrame _ _
      · exact (sequencer_write haddr a value).trans (if_neg haddr).symm
    | stepSequencer => exact sequencer_clockFrame _ _
    | samples n => exact hstill (still_samples n a)
    | withMixing mixing => exact congrArg Channels.sequencer (channels_withMixing a mixing)
    | readStatus | withSampleRate | reset => rfl
  | clockTimers => exact hstill (still_clockTimers a)

end Apu

/-! ## The interrupt -/

namespace Sequencer

/-- The next step raises the interrupt: it is the fourth of a four-step cycle, and the interrupt is
not inhibited. -/
def Raises (s : Sequencer) : Prop :=
  s.fiveStep = false ∧ s.advance.2.step = 4 ∧ s.irqInhibit = false

theorem irqFlag_advance (s : Sequencer) :
    s.advance.2.irqFlag = true ↔ s.Raises ∨ s.irqFlag = true := by
  simp [advance, Raises, and_assoc, or_comm]

theorem irqFlag_moved (s : Sequencer) (m : Move) :
    (s.moved m).irqFlag = true ↔
      m.steps = true ∧ s.Raises ∨ s.irqFlag = true ∧ m.dropsIrq = false := by
  cases m with
  | act act =>
    cases act with
    | write addr value =>
      by_cases haddr : addr = 0x4017 <;>
        simp [moved, Apu.Move.steps, Apu.Move.dropsIrq, haddr, writeControl]
    | stepSequencer => simp [moved, Apu.Move.steps, Apu.Move.dropsIrq, irqFlag_advance]
    | _ => simp [moved, Apu.Move.steps, Apu.Move.dropsIrq, acknowledge, powerOn]
  | clockTimers => simp [moved, Apu.Move.steps, Apu.Move.dropsIrq]

/-- An inhibited interrupt is not pending. -/
def Silenced (s : Sequencer) : Prop := s.irqInhibit = true → s.irqFlag = false

theorem Silenced.moved {s : Sequencer} (h : s.Silenced) (m : Move) : (s.moved m).Silenced := by
  intro hinhibit
  cases m with
  | act act =>
    cases act with
    | write addr value =>
      by_cases haddr : addr = 0x4017
      · simp only [Sequencer.moved, if_pos haddr, writeControl] at hinhibit ⊢
        rw [hinhibit]
        exact Bool.and_false _
      · simp only [Sequencer.moved, if_neg haddr] at hinhibit ⊢
        exact h hinhibit
    | stepSequencer =>
      have hraises : ¬s.Raises := fun hr => Bool.false_ne_true (hr.2.2.symm.trans hinhibit)
      rw [Bool.eq_false_iff, Ne, Sequencer.moved, irqFlag_advance, not_or]
      exact ⟨hraises, Bool.eq_false_iff.mp (h hinhibit)⟩
    | readStatus | reset => rfl
    | samples | withSampleRate | withMixing => exact h hinhibit
  | clockTimers => exact h hinhibit

end Sequencer

/-! ## Steps of a cycle -/

namespace Sequencer

/-- Where a sequencer stands `n` steps after it has been started over. -/
def place (fiveStep : Bool) (n : Nat) : Nat :=
  if n = 0 then 0 else (n - 1) % (if fiveStep then 5 else 4) + 1

/-- The quarter frames that `n` steps clock. -/
def quartersIn (fiveStep : Bool) (n : Nat) : Nat := if fiveStep then n - (n + 1) / 5 else n

/-- The half frames that `n` steps clock. -/
def halvesIn (fiveStep : Bool) (n : Nat) : Nat :=
  if fiveStep then (n + 3) / 5 + n / 5 else n / 2

/-- The sequencer has taken `n` steps of its cycle since it was started over. -/
structure Paced (fiveStep : Bool) (n : Nat) (s : Sequencer) : Prop where
  cycle : s.fiveStep = fiveStep
  step : s.step.toNat = place fiveStep n

variable {s : Sequencer} {fiveStep : Bool} {n : Nat}

theorem toNat_step_advance (s : Sequencer) :
    s.advance.2.step.toNat = s.step.toNat % (if s.fiveStep then 5 else 4) + 1 := by
  have hlt := s.step.toNat_lt
  rw [advance]
  cases s.fiveStep <;> simp <;> omega

theorem Paced.advance (h : s.Paced fiveStep n) : s.advance.2.Paced fiveStep (n + 1) := by
  refine ⟨h.cycle, ?_⟩
  rw [toNat_step_advance, h.cycle, h.step, place, place]
  cases fiveStep <;> simp <;> split <;> omega

theorem quarter_beatAt (fiveStep : Bool) (step : UInt8) :
    (beatAt fiveStep step).quarter = true ↔ ¬(fiveStep = true ∧ step.toNat = 4) := by
  revert step
  cases fiveStep <;> decide +kernel

theorem half_beatAt (fiveStep : Bool) (step : UInt8) :
    (beatAt fiveStep step).half = true ↔
      step.toNat = 2 ∨ step.toNat = if fiveStep then 5 else 4 := by
  revert step
  cases fiveStep <;> decide +kernel

theorem Paced.beat_advance (h : s.Paced fiveStep n) :
    s.advance.1 = beatAt fiveStep s.advance.2.step := by
  rw [← h.cycle]
  rfl

theorem Paced.quartersIn_succ (h : s.Paced fiveStep n) :
    quartersIn fiveStep (n + 1) =
      quartersIn fiveStep n + if s.advance.1.quarter = true then 1 else 0 := by
  simp only [h.beat_advance, quarter_beatAt, h.advance.step, place, quartersIn]
  cases fiveStep <;> simp
  split <;> omega

theorem Paced.halvesIn_succ (h : s.Paced fiveStep n) :
    halvesIn fiveStep (n + 1) =
      halvesIn fiveStep n + if s.advance.1.half = true then 1 else 0 := by
  simp only [h.beat_advance, half_beatAt, h.advance.step, place, halvesIn]
  cases fiveStep <;> simp <;> split <;> omega

/-- A move that does not start the sequencer over steps it or leaves it where it is. -/
theorem Paced.moved (h : s.Paced fiveStep n) {m : Move} (hm : m.cycle? = none) :
    (s.moved m).Paced fiveStep (n + if m.steps then 1 else 0) ∧
      quartersIn fiveStep (n + if m.steps then 1 else 0) =
        quartersIn fiveStep n + (if (s.beat m).quarter then 1 else 0) ∧
      halvesIn fiveStep (n + if m.steps then 1 else 0) =
        halvesIn fiveStep n + (if (s.beat m).half then 1 else 0) := by
  have hstays : (⟨s.fiveStep, s.step, s.irqInhibit, false⟩ : Sequencer).Paced fiveStep n :=
    ⟨h.cycle, h.step⟩
  cases m with
  | act act =>
    cases act with
    | stepSequencer => exact ⟨h.advance, h.quartersIn_succ, h.halvesIn_succ⟩
    | write addr value =>
      have haddr : addr ≠ 0x4017 := by
        rintro rfl
        cases hm
      simp only [Sequencer.moved, beat, if_neg haddr]
      exact ⟨h, rfl, rfl⟩
    | readStatus => exact ⟨hstays, rfl, rfl⟩
    | reset => cases hm
    | samples | withSampleRate | withMixing => exact ⟨h, rfl, rfl⟩
  | clockTimers => exact ⟨h, rfl, rfl⟩

end Sequencer

/-! ## Runs -/

namespace Apu

variable {a : Apu} {fiveStep : Bool}

/-- How often a run clocks what `pick` takes from a beat. -/
def counted (pick : Beat → Bool) (a : Apu) : List Move → Nat
  | [] => 0
  | m :: rest => (if pick (a.sequencer.beat m) then 1 else 0) + (a.moved m).counted pick rest

/-- The quarter frames that a run clocks. -/
def quarters (a : Apu) (moves : List Move) : Nat := a.counted Beat.quarter moves

/-- The half frames that a run clocks. -/
def halves (a : Apu) (moves : List Move) : Nat := a.counted Beat.half moves

/-- A run that does not start the sequencer over steps it on from where it stands. -/
theorem counted_of_paced {n : Nat} (h : a.sequencer.Paced fiveStep n) {moves : List Move}
    (hmoves : ∀ m ∈ moves, m.cycle? = none) :
    (moves.foldl moved a).sequencer.Paced fiveStep (n + moves.countP Move.steps) ∧
      Sequencer.quartersIn fiveStep (n + moves.countP Move.steps) =
        Sequencer.quartersIn fiveStep n + a.quarters moves ∧
      Sequencer.halvesIn fiveStep (n + moves.countP Move.steps) =
        Sequencer.halvesIn fiveStep n + a.halves moves := by
  induction moves generalizing a n with
  | nil => exact ⟨h, rfl, rfl⟩
  | cons m rest ih =>
    obtain ⟨hm, hrest⟩ := List.forall_mem_cons.mp hmoves
    obtain ⟨hpaced, hquarter, hhalf⟩ := h.moved hm
    rw [← sequencer_moved] at hpaced
    obtain ⟨hrun, hquarters, hhalves⟩ := ih hpaced hrest
    have hcount : n + (m :: rest).countP Move.steps =
        n + (if m.steps then 1 else 0) + rest.countP Move.steps := by
      rw [List.countP_cons]
      omega
    rw [hcount]
    refine ⟨hrun, ?_, ?_⟩
    · rw [hquarters, hquarter, Nat.add_assoc]
      rfl
    · rw [hhalves, hhalf, Nat.add_assoc]
      rfl

/-- What a run clocks that starts where the sequencer was started over. -/
theorem counted_of_start (h : a.sequencer.Paced fiveStep 0) {moves : List Move}
    (hmoves : ∀ m ∈ moves, m.cycle? = none) :
    (moves.foldl moved a).sequencer.Paced fiveStep (moves.countP Move.steps) ∧
      a.quarters moves = Sequencer.quartersIn fiveStep (moves.countP Move.steps) ∧
      a.halves moves = Sequencer.halvesIn fiveStep (moves.countP Move.steps) := by
  have hnone : Sequencer.quartersIn fiveStep 0 = 0 ∧ Sequencer.halvesIn fiveStep 0 = 0 := by
    cases fiveStep <;> exact ⟨rfl, rfl⟩
  have hrun := counted_of_paced h hmoves
  rw [hnone.1, hnone.2, Nat.zero_add, Nat.zero_add, Nat.zero_add] at hrun
  exact ⟨hrun.1, hrun.2.1.symm, hrun.2.2.symm⟩

/-- A move that starts the sequencer over leaves no step taken. -/
theorem paced_of_cycle {m : Move} (h : m.cycle? = some fiveStep) :
    (a.moved m).sequencer.Paced fiveStep 0 ∧ a.sequencer.beat m = ⟨fiveStep, fiveStep⟩ := by
  rw [sequencer_moved]
  cases m with
  | act act =>
    cases act with
    | write addr value =>
      by_cases haddr : addr = 0x4017
      · simp only [Move.cycle?, if_pos haddr, Option.some.injEq] at h
        rw [Sequencer.moved, Sequencer.beat, if_pos haddr, if_pos haddr, h]
        exact ⟨⟨h, rfl⟩, rfl⟩
      · simp only [Move.cycle?, if_neg haddr] at h
        cases h
    | reset =>
      cases h
      exact ⟨⟨rfl, rfl⟩, rfl⟩
    | _ => cases h
  | clockTimers => cases h

/-- The next step of the unit's sequencer reaches the fourth step of a four-step cycle while the
interrupt is not inhibited. -/
def RaisesIrq (a : Apu) : Prop :=
  a.sequencer.fiveStep = false ∧ a.stepSequencer.sequencer.step = 4 ∧
    a.sequencer.irqInhibit = false

theorem irqPending_moved (a : Apu) (m : Move) :
    (a.moved m).irqPending = true ↔
      m.steps = true ∧ a.RaisesIrq ∨ a.irqPending = true ∧ m.dropsIrq = false := by
  have hstep : a.stepSequencer.sequencer = a.sequencer.advance.2 := sequencer_clockFrame _ _
  rw [RaisesIrq, hstep, irqPending, sequencer_moved]
  exact Sequencer.irqFlag_moved a.sequencer m

theorem eq_stepSequencer_of_steps {m : Move} (h : m.steps = true) : m = .act .stepSequencer := by
  cases m with
  | act act =>
    cases act with
    | stepSequencer => rfl
    | _ => cases h
  | clockTimers => cases h

/-- The interrupt is pending if some step has raised it and nothing has dropped it since. -/
theorem irqPending_run_iff (moves : List Move) :
    (moves.foldl moved powerOn).irqPending = true ↔
      ∃ before after, moves = before ++ .act .stepSequencer :: after ∧
        (before.foldl moved powerOn).RaisesIrq ∧ ∀ m ∈ after, m.dropsIrq = false := by
  induction moves using List.reverseRecOn with
  | nil =>
    refine iff_of_false Bool.false_ne_true ?_
    rintro ⟨before, after, hnil, -⟩
    exact List.append_ne_nil_of_right_ne_nil before (List.cons_ne_nil _ after) hnil.symm
  | append_singleton rest m ih =>
    rw [List.foldl_append, List.foldl_cons, List.foldl_nil, irqPending_moved, ih]
    constructor
    · rintro (⟨hsteps, hraises⟩ | ⟨⟨before, after, rfl, hraises, hkept⟩, hm⟩)
      · exact ⟨rest, [], by rw [eq_stepSequencer_of_steps hsteps], hraises, by simp⟩
      · refine ⟨before, after ++ [m], by simp, hraises, fun m' hm' => ?_⟩
        rcases List.mem_append.mp hm' with hafter | hlast
        · exact hkept m' hafter
        · exact List.mem_singleton.mp hlast ▸ hm
    · rintro ⟨before, after, hsplit, hraises, hkept⟩
      -- the step that raised it is the last move, or lies before that
      rcases List.eq_nil_or_concat after with rfl | ⟨later, last, rfl⟩
      · obtain ⟨rfl, hlast⟩ := List.append_inj' hsplit rfl
        obtain rfl := List.head_eq_of_cons_eq hlast
        exact .inl ⟨rfl, hraises⟩
      · rw [List.concat_eq_append, ← List.cons_append, ← List.append_assoc] at hsplit
        obtain ⟨rfl, hlast⟩ := List.append_inj' hsplit rfl
        obtain rfl := List.head_eq_of_cons_eq hlast
        simp only [List.concat_eq_append, List.forall_mem_append] at hkept
        exact .inr ⟨⟨before, later, rfl, hraises, hkept.1⟩, hkept.2 _ (List.mem_singleton_self _)⟩

theorem silenced_run (moves : List Move) : (moves.foldl moved powerOn).sequencer.Silenced := by
  have hstart : powerOn.sequencer.Silenced := fun _ => rfl
  refine List.foldlRecOn (motive := fun a => a.sequencer.Silenced) moves moved hstart ?_
  intro a h m _
  rw [sequencer_moved]
  exact h.moved m

/-- No step of a five-step cycle raises the interrupt. -/
theorem irqPending_of_fiveStep {n : Nat} (h : a.sequencer.Paced true n) {moves : List Move}
    (hmoves : ∀ m ∈ moves, m.cycle? = none) (hpending : (moves.foldl moved a).irqPending = true) :
    a.irqPending = true := by
  induction moves generalizing a n with
  | nil => exact hpending
  | cons m rest ih =>
    obtain ⟨hm, hrest⟩ := List.forall_mem_cons.mp hmoves
    have hpaced := (h.moved hm).1
    rw [← sequencer_moved] at hpaced
    rcases (irqPending_moved a m).mp (ih hpaced hrest hpending) with ⟨-, hraises, -⟩ | ⟨hbefore, -⟩
    · exact absurd (h.cycle.symm.trans hraises) Bool.noConfusion
    · exact hbefore

/-- **The law of the frame sequencer.**  In every run from power-on the interrupt is pending exactly
if some step has reached the fourth step of a four-step cycle, with the interrupt not inhibited,
since the status was last read, the interrupt inhibited or the unit reset; so it never is while it
is inhibited.  A move clocks the quarter frame exactly if its beat has it, and then the half frame
exactly if its beat has that, and this comes last.  The `n` steps since the cycle was last chosen,
by writing the mode or by a reset, have clocked `n` quarters and `n / 2` halves in four steps, and
stand at the fourth step at the multiples of four; in five steps they have clocked
`n - (n + 1) / 5` quarters and `(n + 3) / 5 + n / 5` halves, beyond the quarter and the half that
the write clocked, and raised no interrupt. -/
theorem sequencer_law :
    (∀ moves : List Move,
      ((moves.foldl moved powerOn).irqPending = true ↔
        ∃ before after, moves = before ++ .act .stepSequencer :: after ∧
          (before.foldl moved powerOn).RaisesIrq ∧ ∀ m ∈ after, m.dropsIrq = false) ∧
      ((moves.foldl moved powerOn).sequencer.irqInhibit = true →
        (moves.foldl moved powerOn).irqPending = false)) ∧
    (∀ (a : Apu) (m : Move),
      let beat := a.sequencer.beat m
      let b := if beat.quarter then (a.prepared m).clockQuarter else a.prepared m
      a.moved m = if beat.half then b.clockHalf else b) ∧
    (∀ (a : Apu) (start : Move) (later : List Move), (∀ m ∈ later, m.cycle? = none) →
      let b := a.moved start
      let n := later.countP Move.steps
      (start.cycle? = some false →
        a.sequencer.beat start = ⟨false, false⟩ ∧
        b.quarters later = n ∧ b.halves later = n / 2 ∧
        ((later.foldl moved b).sequencer.step = 4 ↔ 0 < n ∧ 4 ∣ n)) ∧
      (start.cycle? = some true →
        a.sequencer.beat start = ⟨true, true⟩ ∧
        b.quarters later = n - (n + 1) / 5 ∧ b.halves later = (n + 3) / 5 + n / 5 ∧
        ∀ earlier between, later = earlier ++ between →
          (later.foldl moved b).irqPending = true →
            (earlier.foldl moved b).irqPending = true)) := by
  refine ⟨fun moves => ⟨irqPending_run_iff moves, silenced_run moves⟩, moved_eq_clockFrame, ?_⟩
  intro a start later hlater b n
  constructor
  · intro hstart
    obtain ⟨hpaced, hbeat⟩ := paced_of_cycle (a := a) hstart
    obtain ⟨hrun, hquarters, hhalves⟩ := counted_of_start hpaced hlater
    refine ⟨hbeat, hquarters, hhalves, ?_⟩
    rw [← UInt8.toNat_inj, hrun.step, Sequencer.place]
    change (if n = 0 then 0 else (n - 1) % 4 + 1) = 4 ↔ _
    split <;> omega
  · intro hstart
    obtain ⟨hpaced, hbeat⟩ := paced_of_cycle (a := a) hstart
    obtain ⟨-, hquarters, hhalves⟩ := counted_of_start hpaced hlater
    refine ⟨hbeat, hquarters, hhalves, ?_⟩
    rintro earlier between rfl hpending
    rw [List.foldl_append] at hpending
    obtain ⟨hearlier, hbetween⟩ := List.forall_mem_append.mp hlater
    exact irqPending_of_fiveStep (counted_of_start hpaced hearlier).1 hbetween hpending

/-- Two five-step cycles clock eight quarters and four halves, beyond the quarter and the half that
the write clocks; the interrupt that was raised before stays pending. -/
theorem sequencer_law_fiveStep :
    let steps (n : Nat) := List.replicate n (Move.act .stepSequencer)
    let a := (steps 4).foldl moved powerOn
    let b := a.moved (.act (.write 0x4017 0x80))
    a.irqPending = true ∧ b.quarters (steps 10) = 8 ∧ b.halves (steps 10) = 4 ∧
      ((steps 10).foldl moved b).irqPending = true := by
  intro steps a b
  have hkept : ∀ m ∈ .act (.write 0x4017 0x80) :: steps 10, m.dropsIrq = false := by
    refine List.forall_mem_cons.mpr ⟨by decide, fun m hm => ?_⟩
    rw [List.eq_of_mem_replicate hm]
    rfl
  have hcycle : ∀ m ∈ steps 10, m.cycle? = none := by
    intro m hm
    rw [List.eq_of_mem_replicate hm]
    rfl
  have hcount : (steps 10).countP Move.steps = 10 := by decide
  have hraises : ((steps 3).foldl moved powerOn).RaisesIrq := ⟨rfl, rfl, rfl⟩
  have hlaw := sequencer_law.2.2 a (.act (.write 0x4017 0x80)) (steps 10) hcycle
  rw [hcount] at hlaw
  obtain ⟨-, hquarters, hhalves, -⟩ := hlaw.2 rfl
  have hrun : (steps 10).foldl moved b =
      (steps 4 ++ .act (.write 0x4017 0x80) :: steps 10).foldl moved powerOn := by
    rw [List.foldl_append, List.foldl_cons]
  refine ⟨?_, hquarters, hhalves, ?_⟩
  · exact (sequencer_law.1 (steps 4)).1.mpr ⟨steps 3, [], rfl, hraises, by simp⟩
  · rw [hrun, (sequencer_law.1 _).1]
    exact ⟨steps 3, .act (.write 0x4017 0x80) :: steps 10, rfl, hraises, hkept⟩

end Apu

end Famicom.Sound
