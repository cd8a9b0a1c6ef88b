import Famicom.Proofs.Console.Frames
import Famicom.Proofs.Console.Routines
import Mathlib.Logic.Relation

/-!
# The loops of the host end

A frame and a routine are loops that step until something has happened: until the cycles of the
frame have passed, or until the processor is back at the return mark.  What is stepped is the
program's, and nothing is known of it.  The loops end because every step that ends well takes at
least two cycles, and because a step of a jammed processor does not end well.

`HostLoop.Runs` says how such a loop runs without any bound, and counts its calls of `step`.  The
loops of the console have fuel, and it never runs out.

* `HostLoop.exists_runs` — a loop ends if its rounds use up a budget.
* `HostLoop.Runs.fuelled` — a loop with enough fuel goes as it goes without a bound.
* `HostLoop.Runs.last` — the ways a loop can end.
* `runFrame_ends`, `callAt_ends` — frames and routines.
* `host_loops_end` — frames, tracks that are started and frames of a track.
-/

namespace Famicom.Console

open Relation (ReflTransGen)

/-! ## Loops -/

/-- A loop around `step`: when there is more to do, what to do after a step of so many cycles, and
how to report that a step failed. -/
structure HostLoop where
  more : Console → Bool
  finish : Nat → Run Unit
  blame : Error → Error

namespace HostLoop

/-- A round of the loop leads from `c` to `d`. -/
def Round (l : HostLoop) (c d : Console) : Prop :=
  l.more c ∧ ∃ n m, step.run c = (.ok n, m) ∧ (l.finish n).run m = (.ok (), d)

/-- From a console the loop runs to an end, with so many calls of `step`. -/
inductive Runs (l : HostLoop) : Nat → Console → Except Error Unit → Console → Prop
  | ended {c : Console} (hmore : l.more c = false) : Runs l 0 c (.ok ()) c
  | stepFailed {c d : Console} {e : Error} (hmore : l.more c)
      (hstep : step.run c = (.error e, d)) : Runs l 1 c (.error (l.blame e)) d
  | roundFailed {c m d : Console} {n : Nat} {e : Error} (hmore : l.more c)
      (hstep : step.run c = (.ok n, m)) (hfinish : (l.finish n).run m = (.error e, d)) :
      Runs l 1 c (.error e) d
  | next {c m d : Console} {calls : Nat} {r : Except Error Unit} (hround : l.Round c m)
      (hrest : Runs l calls m r d) : Runs l (calls + 1) c r d

variable {l : HostLoop}

/-- A loop ends if every round uses up at least two units of a budget, and there is more to do only
while some of it is left. -/
theorem exists_runs {I : Console → Prop} {used : Console → Nat} {budget : Nat}
    (hmore : ∀ c, I c → l.more c → used c < budget)
    (hround : ∀ c d, I c → l.Round c d → I d ∧ used c + 2 ≤ used d) {c : Console} (hc : I c) :
    ∃ calls r d, l.Runs calls c r d ∧ 2 * calls ≤ budget - used c + 1 := by
  -- what is left of the budget decreases
  induction hleft : budget - used c using Nat.strongRecOn generalizing c with
  | ind left ih =>
    cases hc' : l.more c with
    | false => exact ⟨0, _, _, .ended hc', Nat.zero_le _⟩
    | true =>
      have hlt := hmore c hc hc'
      rcases hstep : step.run c with ⟨e | n, m⟩
      · exact ⟨1, _, _, .stepFailed hc' hstep, by omega⟩
      rcases hfinish : (l.finish n).run m with ⟨e | u, d⟩
      · exact ⟨1, _, _, .roundFailed hc' hstep hfinish, by omega⟩
      have hnext : l.Round c d := ⟨hc', n, m, hstep, hfinish⟩
      obtain ⟨hd, hused⟩ := hround c d hc hnext
      obtain ⟨calls, r, f, hruns, hcalls⟩ := ih (budget - used d) (by omega) hd rfl
      exact ⟨calls + 1, r, f, .next hnext hruns, by omega⟩

/-- The ways a loop can end, where `m` is the console at which its last round begins. -/
theorem Runs.last {calls : Nat} {c d : Console} {r : Except Error Unit}
    (h : l.Runs calls c r d) :
    ∃ m, ReflTransGen l.Round c m ∧
      ((l.more m = false ∧ r = .ok () ∧ d = m) ∨
        (∃ e, l.more m ∧ step.run m = (.error e, d) ∧ r = .error (l.blame e)) ∨
        ∃ n k e, l.more m ∧ step.run m = (.ok n, k) ∧ (l.finish n).run k = (.error e, d) ∧
          r = .error e) := by
  induction h with
  | ended hmore => exact ⟨_, .refl, .inl ⟨hmore, rfl, rfl⟩⟩
  | stepFailed hmore hstep => exact ⟨_, .refl, .inr (.inl ⟨_, hmore, hstep, rfl⟩)⟩
  | roundFailed hmore hstep hfinish =>
    exact ⟨_, .refl, .inr (.inr ⟨_, _, _, hmore, hstep, hfinish, rfl⟩)⟩
  | next hround _ ih =>
    obtain ⟨m, hcomes, hlast⟩ := ih
    exact ⟨m, .head hround hcomes, hlast⟩

/-- What every round keeps holds wherever the loop comes. -/
theorem keeps_of_round {I : Console → Prop} (hround : ∀ c d, I c → l.Round c d → I d)
    {c d : Console} (hcomes : ReflTransGen l.Round c d) (hc : I c) : I d := by
  induction hcomes with
  | refl => exact hc
  | tail _ hlast ih => exact hround _ _ ih hlast

/-! ## Fuel -/

/-- The loop with fuel: when the fuel is used up it ends as if there were no more to do. -/
structure Fuelled (l : HostLoop) (loop : Nat → Run Unit) : Prop where
  zero : ∀ c, (loop 0).run c = (.ok (), c)
  ended : ∀ fuel c, l.more c = false → (loop (fuel + 1)).run c = (.ok (), c)
  round : ∀ fuel c, l.more c → (loop (fuel + 1)).run c =
    match step.run c with
    | (.error e, d) => (.error (l.blame e), d)
    | (.ok n, m) =>
      match (l.finish n).run m with
      | (.error e, d) => (.error e, d)
      | (.ok (), d) => (loop fuel).run d

/-- With fuel for its calls a loop goes as it goes without a bound. -/
theorem Runs.fuelled {loop : Nat → Run Unit} (hloop : l.Fuelled loop) {calls : Nat}
    {c d : Console} {r : Except Error Unit} (h : l.Runs calls c r d) {fuel : Nat}
    (hfuel : calls ≤ fuel) : (loop fuel).run c = (r, d) := by
  -- on how the loop runs, in which every round takes one of the fuel
  induction h generalizing fuel with
  | ended hmore =>
    cases fuel with
    | zero => exact hloop.zero _
    | succ fuel => exact hloop.ended fuel _ hmore
  | stepFailed hmore hstep =>
    obtain ⟨fuel, rfl⟩ := Nat.exists_eq_add_of_le' hfuel
    rw [hloop.round fuel _ hmore, hstep]
  | roundFailed hmore hstep hfinish =>
    obtain ⟨fuel, rfl⟩ := Nat.exists_eq_add_of_le' hfuel
    rw [hloop.round fuel _ hmore, hstep]
    dsimp only
    rw [hfinish]
  | next hround _ ih =>
    obtain ⟨hmore, n, m, hstep, hfinish⟩ := hround
    obtain ⟨spare, rfl⟩ := Nat.exists_eq_add_of_le' hfuel
    rw [← Nat.add_assoc, hloop.round _ _ hmore, hstep]
    dsimp only
    rw [hfinish]
    exact ih (Nat.le_add_left _ _)

end HostLoop

/-! ## Steps -/

/-- What a step that ends well costs. -/
theorem step_took {c d : Console} {n : Nat} (h : step.run c = (.ok n, d)) :
    ∃ meter, Metered.Stepped n ⟨c, {}⟩ ⟨d, meter⟩ := by
  obtain ⟨meter, hmetered⟩ := Metered.eq_ok_of_plain ((Metered.step_console ⟨c, {}⟩).trans h)
  exact ⟨meter, Metered.step_ok hmetered⟩

/-- Without a program no step ends well. -/
theorem hasProgram_of_step {c d : Console} {n : Nat} (h : step.run c = (.ok n, d)) :
    c.hasProgram := by
  cases hpresent : c.hasProgram with
  | true => rfl
  | false =>
    rw [step_absent hpresent] at h
    cases h

/-! ## Frames -/

/-- The loop of a frame: step until its cycles have passed, and fire the events that fall due. -/
def frameLoop : HostLoop where
  more c := c.clock.position < c.settings.cyclesPerFrame.toNat
  finish cycles := modify fun c => (c.advanceClock cycles).fireFrameEvents
  blame := id

/-- The loop of a frame, round by round. -/
theorem fuelled_runCycles : frameLoop.Fuelled runCycles where
  zero _ := rfl
  ended fuel c hmore := by
    rw [runCycles, Run.bind_run, Run.get_run]
    exact congrArg (fun x : Run Unit => x.run c) (if_neg (of_decide_eq_false hmore))
  round fuel c hmore := by
    have hlt : c.clock.position < c.settings.cyclesPerFrame.toNat := of_decide_eq_true hmore
    rw [runCycles, Run.bind_run, Run.get_run]
    dsimp only
    rw [if_pos hlt, Run.bind_run]
    rcases step.run c with ⟨e | n, m⟩
    · rfl
    · rfl

/-- A frame is its loop and what ends it. -/
theorem runFrame_run (c : Console) :
    runFrame.run c =
      if c.hasProgram then
        Run.finished endFrame ((runCycles c.settings.cyclesPerFrame.toNat).run c)
      else (.error .noProgram, c) := by
  unfold runFrame
  rw [Run.bind_run, Run.get_run]
  dsimp only
  cases c.hasProgram with
  | false => rfl
  | true =>
    simp only [Bool.not_true, Bool.false_eq_true, if_false, if_true]
    rw [Run.bind_run, Run.get_run]
    exact Run.bind_modify_run ..

/-- Every round of a frame takes it two cycles on. -/
theorem frameLoop_round {c d : Console} (h : frameLoop.Round c d) :
    d.settings = c.settings ∧ c.clock.position + 2 ≤ d.clock.position := by
  obtain ⟨-, n, m, hstep, hfinish⟩ := h
  obtain ⟨meter, hstepped⟩ := step_took hstep
  have helapsed := ((Metered.Elapsed.refl (m := ⟨c, {}⟩) (hasProgram_of_step hstep)).step
    hstepped).fireFrameEvents
  have hd : (Metered.change (·.advanceClock n) ⟨m, meter⟩).fireFrameEvents.console = d :=
    (Metered.fireFrameEvents_console _).trans (congrArg Prod.snd hfinish)
  have hsettings := helapsed.settings
  have hposition := helapsed.position
  rw [hd] at hsettings hposition
  refine ⟨hsettings, ?_⟩
  rw [hposition, Nat.zero_add]
  exact Nat.add_le_add_left hstepped.slow _

/-- A frame ends, with half as many calls of `step` as it has cycles. -/
theorem runFrame_ends {c : Console} (h : c.hasProgram) :
    ∃ calls r d, frameLoop.Runs calls c r d ∧
      calls ≤ (c.settings.cyclesPerFrame.toNat + 1) / 2 ∧
      runFrame.run c = Run.finished endFrame (r, d) := by
  have hround (a b : Console) (ha : a.settings = c.settings) (hround : frameLoop.Round a b) :
      b.settings = c.settings ∧ a.clock.position + 2 ≤ b.clock.position := by
    obtain ⟨hsettings, hposition⟩ := frameLoop_round hround
    exact ⟨hsettings.trans ha, hposition⟩
  have hmore (a : Console) (ha : a.settings = c.settings) (hmore : frameLoop.more a) :
      a.clock.position < c.settings.cyclesPerFrame.toNat := ha ▸ of_decide_eq_true hmore
  obtain ⟨calls, r, d, hruns, hcalls⟩ := HostLoop.exists_runs hmore hround (c := c) rfl
  have hle : calls ≤ (c.settings.cyclesPerFrame.toNat + 1) / 2 := by omega
  refine ⟨calls, r, d, hruns, hle, ?_⟩
  rw [runFrame_run, if_pos h, hruns.fuelled fuelled_runCycles (by omega)]

/-! ## Routines -/

/-- The loop of a routine at `addr`: step until the processor is back, but not for longer than the
budget, which is counted from `start`. -/
def routineLoop (addr : UInt16) (budget start : UInt64) : HostLoop where
  more c := c.cpu.pc ≠ returnMark
  finish _ := do
    if budget < (← get).cpu.totalCycles - start then
      report (.routineOverran addr budget (← get).cpu.pc)
      throw (.routineOverran addr budget)
  blame := .routineStopped addr

/-- The budget is checked after every step. -/
theorem routineLoop_finish (addr : UInt16) (budget start : UInt64) (n : Nat) (c : Console) :
    ((routineLoop addr budget start).finish n).run c =
      if budget < c.cpu.totalCycles - start then
        (.error (.routineOverran addr budget),
          { c with log := c.log.push (.routineOverran addr budget c.cpu.pc) })
      else (.ok (), c) := by
  change ((do
    if budget < (← get).cpu.totalCycles - start then
      report (.routineOverran addr budget (← get).cpu.pc)
      throw (.routineOverran addr budget)) : Run Unit).run c = _
  rw [Run.bind_run, Run.get_run]
  dsimp only
  split
  · rfl
  · rfl

/-- The loop of a routine, round by round; the budget is looked at after the step. -/
theorem fuelled_runRoutine (addr : UInt16) (budget start : UInt64) :
    (routineLoop addr budget start).Fuelled (runRoutine addr budget start) where
  zero _ := rfl
  ended fuel c hmore := by
    rw [runRoutine, Run.bind_run, Run.get_run]
    exact congrArg (fun x : Run Unit => x.run c) (if_neg (of_decide_eq_false hmore))
  round fuel c hmore := by
    rw [runRoutine, Run.bind_run, Run.get_run]
    dsimp only
    rw [if_pos (of_decide_eq_true hmore), Run.bind_run, stepRoutine, Run.tryCatch_run]
    rcases step.run c with ⟨e | n, m⟩
    · rfl
    · dsimp only
      rw [routineLoop_finish, Run.bind_run, Run.get_run]
      dsimp only
      split
      · rfl
      · rfl

/-- The loop that a call of a routine runs. -/
def routineOf (addr : UInt16) (c : Console) : HostLoop :=
  routineLoop addr c.settings.routineCycleBudget c.cpu.totalCycles

theorem calling_totalCycles (c : Console) (addr : UInt16) :
    (c.calling addr).cpu.totalCycles = c.cpu.totalCycles :=
  Exec.Timeless.call addr returnMark (c.cpu, c.bus)

/-- No step that the loop makes takes the cycle count past its greatest value. -/
def HostLoop.Unwrapped (l : HostLoop) (c : Console) : Prop :=
  ∀ d n e, ReflTransGen l.Round c d → l.more d → step.run d = (.ok n, e) →
    d.cpu.totalCycles.toNat + n < 2 ^ 64

section

variable {addr : UInt16} {budget start : UInt64}

/-- A routine has taken no more cycles than it may. -/
def WithinBudget (budget start : UInt64) (c : Console) : Prop :=
  start.toNat ≤ c.cpu.totalCycles.toNat ∧ c.cpu.totalCycles.toNat ≤ start.toNat + budget.toNat

/-- If the cycle count does not wrap, a step takes it on by at least two cycles and at most
fifteen. -/
theorem step_toNat_totalCycles {c d : Console} {n : Nat} (h : step.run c = (.ok n, d))
    (hfits : c.cpu.totalCycles.toNat + n < 2 ^ 64) :
    d.cpu.totalCycles.toNat = c.cpu.totalCycles.toNat + n ∧ 2 ≤ n ∧ n ≤ 15 := by
  obtain ⟨meter, hstepped⟩ := step_took h
  have hspent : d.cpu.totalCycles = c.cpu.totalCycles + UInt64.ofNat n := hstepped.spent
  have hslow := hstepped.slow
  have hfast := hstepped.fast
  have hsmall : n < UInt64.size := Nat.lt_of_le_of_lt hfast (by decide)
  refine ⟨?_, hslow, hfast⟩
  rw [hspent, UInt64.toNat_add, UInt64.toNat_ofNat_of_lt' hsmall]
  exact Nat.mod_eq_of_lt hfits

/-- The budget of a routine is overrun just if the cycles since its start are more. -/
theorem budget_lt_sub_iff {total : UInt64} (h : start.toNat ≤ total.toNat) :
    budget < total - start ↔ start.toNat + budget.toNat < total.toNat := by
  rw [UInt64.lt_iff_toNat_lt, UInt64.toNat_sub_of_le _ _ (UInt64.le_iff_toNat_le.mpr h)]
  omega

/-- Every round of a routine takes two cycles of its budget and stays within it. -/
theorem routineLoop_round {c d : Console}
    (hfits : ∀ n m, step.run c = (.ok n, m) → c.cpu.totalCycles.toNat + n < 2 ^ 64)
    (hc : WithinBudget budget start c) (h : (routineLoop addr budget start).Round c d) :
    WithinBudget budget start d ∧ c.cpu.totalCycles.toNat + 2 ≤ d.cpu.totalCycles.toNat := by
  obtain ⟨-, n, m, hstep, hfinish⟩ := h
  obtain ⟨htotal, hslow, -⟩ := step_toNat_totalCycles hstep (hfits n m hstep)
  have hstart : start.toNat ≤ m.cpu.totalCycles.toNat := by
    have := hc.1
    omega
  rw [routineLoop_finish] at hfinish
  split at hfinish
  · cases hfinish
  · next hbudget =>
    cases hfinish
    rw [budget_lt_sub_iff hstart] at hbudget
    exact ⟨⟨hstart, by omega⟩, by omega⟩

end

/-! ## Calls of routines -/

section

variable {addr : UInt16} {c d : Console} {calls : Nat}

/-- When it is called, a routine has taken none of its budget. -/
theorem withinBudget_calling :
    WithinBudget c.settings.routineCycleBudget c.cpu.totalCycles (c.calling addr) := by
  rw [WithinBudget, calling_totalCycles]
  exact ⟨Nat.le_refl _, Nat.le_add_right _ _⟩

/-- If budget and one step fit in before the cycle count wraps, it does not wrap. -/
theorem unwrapped_of_lt
    (h : c.cpu.totalCycles.toNat + c.settings.routineCycleBudget.toNat + 15 < 2 ^ 64) :
    (routineOf addr c).Unwrapped (c.calling addr) := by
  have hfits {a : Console}
      (ha : WithinBudget c.settings.routineCycleBudget c.cpu.totalCycles a) (n : Nat) (m : Console)
      (hstep : step.run a = (.ok n, m)) : a.cpu.totalCycles.toNat + n < 2 ^ 64 := by
    obtain ⟨meter, hstepped⟩ := step_took hstep
    have hfast := hstepped.fast
    have hwithin := ha.2
    omega
  intro a n m hcomes _ hstep
  exact hfits (HostLoop.keeps_of_round (fun _ _ hx hround =>
    (routineLoop_round (hfits hx) hx hround).1) hcomes withinBudget_calling) n m hstep

/-- A routine that is stopped has failed in a step or overrun its budget. -/
theorem stopped_of_runs {e : Error}
    (h : (routineOf addr c).Runs calls (c.calling addr) (.error e) d) :
    e = .routineOverran addr c.settings.routineCycleBudget ∨
      ∃ m cause, step.run m = (.error cause, d) ∧ e = .routineStopped addr cause := by
  obtain ⟨m, -, ⟨-, hr, -⟩ | ⟨cause, -, hstep, hr⟩ | ⟨n, k, e, -, -, hfinish, hr⟩⟩ := h.last
  · cases hr
  · cases hr
    exact .inr ⟨m, cause, hstep, rfl⟩
  · cases hr
    rw [routineOf, routineLoop_finish] at hfinish
    split at hfinish
    · cases hfinish
      exact .inl rfl
    · cases hfinish

variable (hunwrapped : (routineOf addr c).Unwrapped (c.calling addr))

include hunwrapped

/-- Wherever a routine comes, it has kept to its budget so far. -/
theorem withinBudget_of_comes {m : Console}
    (hcomes : ReflTransGen (routineOf addr c).Round (c.calling addr) m) :
    WithinBudget c.settings.routineCycleBudget c.cpu.totalCycles m := by
  induction hcomes with
  | refl => exact withinBudget_calling
  | tail hcomes hround ih =>
    exact (routineLoop_round (fun n m => hunwrapped _ n m hcomes hround.1) ih hround).1

/-- A routine ends, with half as many calls of `step` as its budget has cycles and one more. -/
theorem routine_ends :
    ∃ calls r d, (routineOf addr c).Runs calls (c.calling addr) r d ∧
      calls ≤ c.settings.routineCycleBudget.toNat / 2 + 1 := by
  have hmore (a : Console) (hcomes : ReflTransGen (routineOf addr c).Round (c.calling addr) a)
      (_ : (routineOf addr c).more a) : a.cpu.totalCycles.toNat <
        c.cpu.totalCycles.toNat + c.settings.routineCycleBudget.toNat + 1 :=
    Nat.lt_succ_of_le (withinBudget_of_comes hunwrapped hcomes).2
  have hround (a b : Console) (hcomes : ReflTransGen (routineOf addr c).Round (c.calling addr) a)
      (hab : (routineOf addr c).Round a b) :
      ReflTransGen (routineOf addr c).Round (c.calling addr) b ∧
        a.cpu.totalCycles.toNat + 2 ≤ b.cpu.totalCycles.toNat :=
    ⟨hcomes.tail hab, (routineLoop_round (fun n m => hunwrapped a n m hcomes hab.1)
      (withinBudget_of_comes hunwrapped hcomes) hab).2⟩
  -- two cycles a round use the budget up
  obtain ⟨calls, r, d, hruns, hcalls⟩ := HostLoop.exists_runs hmore hround .refl
  rw [calling_totalCycles] at hcalls
  exact ⟨calls, r, d, hruns, by omega⟩

/-- A routine that returns has kept to its budget. -/
theorem returned_of_runs (h : (routineOf addr c).Runs calls (c.calling addr) (.ok ()) d) :
    d.cpu.pc = returnMark ∧ ∃ used ≤ c.settings.routineCycleBudget.toNat,
      d.cpu.totalCycles.toNat = c.cpu.totalCycles.toNat + used := by
  obtain ⟨m, hcomes, ⟨hdone, -, rfl⟩ | ⟨e, -, -, hr⟩ | ⟨n, k, e, -, -, -, hr⟩⟩ := h.last
  · obtain ⟨hlow, hhigh⟩ := withinBudget_of_comes hunwrapped hcomes
    have hback : d.cpu.pc = returnMark := Decidable.of_not_not (of_decide_eq_false hdone)
    exact ⟨hback, d.cpu.totalCycles.toNat - c.cpu.totalCycles.toNat, by omega, by omega⟩
  · cases hr
  · cases hr

/-- A routine that overruns its budget is stopped after the step that does it. -/
theorem overran_of_runs (h : (routineOf addr c).Runs calls (c.calling addr)
      (.error (.routineOverran addr c.settings.routineCycleBudget)) d) :
    ∃ used ≤ c.settings.routineCycleBudget.toNat + 15,
      c.settings.routineCycleBudget.toNat < used ∧
      d.cpu.totalCycles.toNat = c.cpu.totalCycles.toNat + used := by
  obtain ⟨m, hcomes, ⟨-, hr, -⟩ | ⟨e, -, -, hr⟩ | ⟨n, k, e, hmore, hstep, hfinish, -⟩⟩ := h.last
  · cases hr
  · cases hr
  · -- the last step began within the budget, and takes fifteen cycles at most
    obtain ⟨hlow, hhigh⟩ := withinBudget_of_comes hunwrapped hcomes
    obtain ⟨htotal, -, hfast⟩ :=
      step_toNat_totalCycles hstep (hunwrapped m n k hcomes hmore hstep)
    rw [routineOf, routineLoop_finish] at hfinish
    split at hfinish
    · next hover =>
      cases hfinish
      rw [budget_lt_sub_iff (by omega)] at hover
      refine ⟨k.cpu.totalCycles.toNat - c.cpu.totalCycles.toNat, by omega, by omega, ?_⟩
      change k.cpu.totalCycles.toNat = _
      omega
    · cases hfinish

end

/-- A call of the routine at `addr` from `c` ends at `d`, after so many calls of `step`.  If the
routine returns it has kept to its budget, and if it has not kept to it, it is stopped after the
step that overruns it. -/
structure Returns (addr : UInt16) (c : Console) (calls : Nat) (r : Except Error Unit)
    (d : Console) : Prop where
  runs : (routineOf addr c).Runs calls (c.calling addr) r d
  calls_le : calls ≤ c.settings.routineCycleBudget.toNat / 2 + 1
  returned : r = .ok () → d.cpu.pc = returnMark ∧
    ∃ used ≤ c.settings.routineCycleBudget.toNat,
      d.cpu.totalCycles.toNat = c.cpu.totalCycles.toNat + used
  overran : r = .error (.routineOverran addr c.settings.routineCycleBudget) →
    ∃ used ≤ c.settings.routineCycleBudget.toNat + 15,
      c.settings.routineCycleBudget.toNat < used ∧
      d.cpu.totalCycles.toNat = c.cpu.totalCycles.toNat + used
  stopped : ∀ e, r = .error e → e = .routineOverran addr c.settings.routineCycleBudget ∨
    ∃ m cause, step.run m = (.error cause, d) ∧ e = .routineStopped addr cause

/-- Every call of a routine ends. -/
theorem callAt_ends {addr : UInt16} {c : Console}
    (hunwrapped : (routineOf addr c).Unwrapped (c.calling addr)) :
    ∃ calls r d, Returns addr c calls r d ∧ (callAt addr).run c = (r, d) := by
  obtain ⟨calls, r, d, hruns, hle⟩ := routine_ends hunwrapped
  have hrun : (callAt addr).run c = (r, d) := by
    rw [callAt_run, calling_totalCycles]
    exact hruns.fuelled (fuelled_runRoutine ..) (Nat.le_succ_of_le hle)
  exact ⟨calls, r, d, {
    runs := hruns
    calls_le := hle
    returned := fun hr => returned_of_runs hunwrapped (hr ▸ hruns)
    overran := fun hr => overran_of_runs hunwrapped (hr ▸ hruns)
    stopped := fun e hr => stopped_of_runs (hr ▸ hruns) }, hrun⟩

/-! ## The loops of the host -/

/-- **The loops of the host end.**  Whatever program is in the console and whatever state it is in,
a frame calls `step` at most half as often as it has cycles, rounded up.  If a sound program is
loaded, starting a track and playing a frame of it each call one routine, with at most half as many
calls of `step` as its budget has cycles and one more; if the routine returns, the processor is at
the return mark and the routine has kept to its budget, and if it overran the budget, then by at
most fifteen cycles.  Left out are routines in which the cycle count would wrap. -/
theorem host_loops_end (c : Console) :
    (c.hasProgram = false → runFrame.run c = (.error .noProgram, c)) ∧
    (c.hasProgram → ∃ calls r d, frameLoop.Runs calls c r d ∧
      calls ≤ (c.settings.cyclesPerFrame.toNat + 1) / 2 ∧
      runFrame.run c = Run.finished endFrame (r, d)) ∧
    ∀ sound, c.program.bind (·.sound) = some sound →
      (∀ track < sound.tracks,
        (routineOf sound.init (c.cleared track)).Unwrapped ((c.cleared track).calling sound.init) →
        ∃ calls r d, Returns sound.init (c.cleared track) calls r d ∧
          (startTrack track).run c =
            Run.finished (fun d => { d with log := d.log.push (.trackStarted track) }) (r, d)) ∧
      ((routineOf sound.play c).Unwrapped (c.calling sound.play) →
        ∃ calls r d, Returns sound.play c calls r d ∧
          advanceTrack.run c = Run.finished endTrackFrame (r, d)) := by
  refine ⟨fun habsent => ?_, runFrame_ends, fun sound hsound => ⟨fun track htrack hunwrapped => ?_,
    fun hunwrapped => ?_⟩⟩
  · rw [runFrame_run, if_neg (Bool.eq_false_iff.mp habsent)]
  · obtain ⟨calls, r, d, hreturns, hrun⟩ := callAt_ends hunwrapped
    refine ⟨calls, r, d, hreturns, ?_⟩
    rw [startTrack_run, hsound]
    dsimp only
    rw [if_neg (UInt8.not_le.mpr htrack), ← hrun]
    exact Run.bind_modify_run ..
  · obtain ⟨calls, r, d, hreturns, hrun⟩ := callAt_ends hunwrapped
    refine ⟨calls, r, d, hreturns, ?_⟩
    rw [advanceTrack_run, hsound, ← hrun]

/-- Playing never returns, and initialization returns at once. -/
def neverReturning : Array UInt8 := #[0x4C, 0x00, 0x80, 0x60]

/-- With a budget of ten cycles, the track starts after one call of `step`, and playing is stopped
after four, when it has taken twelve cycles. -/
theorem host_loops_end_overrun :
    ∃ i, Image.soundProgram neverReturning 0x8000 ⟨0x8003, 0x8000, 1⟩ = .ok i ∧
      let host := { powerOn with settings := { Settings.standard with routineCycleBudget := 10 } }
      let c := host.acted (.load i)
      let d := c.acted (.startTrack 0)
      c.hasProgram ∧ c.program.bind (·.sound) = some ⟨0x8003, 0x8000, 1⟩ ∧
        (routineOf 0x8003 (c.cleared 0)).Unwrapped ((c.cleared 0).calling 0x8003) ∧
        (routineOf 0x8000 d).Unwrapped (d.calling 0x8000) ∧
        (∃ calls r f, frameLoop.Runs calls c r f ∧ calls ≤ 14891) ∧
        (∃ calls f, Returns 0x8003 (c.cleared 0) calls (.ok ()) f) ∧
        ∃ calls f, Returns 0x8000 d calls (.error (.routineOverran 0x8000 10)) f ∧ calls ≤ 6 ∧
          f.cpu.totalCycles.toNat = d.cpu.totalCycles.toNat + 12 := by
  have himage : Image.soundProgram neverReturning 0x8000 ⟨0x8003, 0x8000, 1⟩ = .ok _ := rfl
  refine ⟨_, himage, ?_⟩
  intro host c d
  have hprogram : c.hasProgram := by decide +kernel
  have hsound : c.program.bind (·.sound) = some ⟨0x8003, 0x8000, 1⟩ := by decide +kernel
  have hsound' : d.program.bind (·.sound) = some ⟨0x8003, 0x8000, 1⟩ := by decide +kernel
  have hinit : (routineOf 0x8003 (c.cleared 0)).Unwrapped ((c.cleared 0).calling 0x8003) :=
    unwrapped_of_lt (by decide +kernel)
  have hplay : (routineOf 0x8000 d).Unwrapped (d.calling 0x8000) :=
    unwrapped_of_lt (by decide +kernel)
  obtain ⟨-, hframes, hroutines⟩ := host_loops_end c
  obtain ⟨-, -, hroutines'⟩ := host_loops_end d
  obtain ⟨calls, r, f, hruns, hle, -⟩ := hframes hprogram
  have hcycles : c.settings.cyclesPerFrame.toNat = 29781 := by decide +kernel
  rw [hcycles] at hle
  refine ⟨hprogram, hsound, hinit, hplay, ⟨calls, r, f, hruns, hle⟩, ?_, ?_⟩
  · obtain ⟨calls, r, f, hreturns, hrun⟩ := (hroutines _ hsound).1 0 (by decide) hinit
    have hok : ((startTrack 0).run c).1.isOk := by decide +kernel
    rw [hrun] at hok
    rcases r with e | u
    · cases hok
    · exact ⟨calls, f, hreturns⟩
  · obtain ⟨calls, r, f, hreturns, hrun⟩ := (hroutines' _ hsound').2 hplay
    have hbudget : d.settings.routineCycleBudget.toNat = 10 := by decide +kernel
    have hover : (match (advanceTrack.run d).1 with
        | .ok () => false
        | .error e => decide (e = .routineOverran 0x8000 10)) = true := by decide +kernel
    have htotal : (advanceTrack.run d).2.cpu.totalCycles.toNat =
        d.cpu.totalCycles.toNat + 12 := by decide +kernel
    rw [hrun] at hover htotal
    rcases r with e | u
    · cases of_decide_eq_true hover
      have hcalls : calls ≤ d.settings.routineCycleBudget.toNat / 2 + 1 := hreturns.calls_le
      rw [hbudget] at hcalls
      exact ⟨calls, f, hreturns, hcalls, htotal⟩
    · cases hover

end Famicom.Console
