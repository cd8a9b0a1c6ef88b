import Famicom.Proofs.Console.Reachable
import Famicom.Proofs.Cpu.Cycles

/-!
# What one step does

A step of the console executes an instruction and may take an interrupt.  Both cost cycles, which
the processor and the console count separately, and neither touches the frame clock or the settings
or takes the cartridge out.

* `step_absent`, `step_jammed`, `step_running` — the three ways a step can go.
* `afterInstruction_cost`, `takeInterrupts_cost` — what the instruction and the interrupt cost.
-/

namespace Famicom

/-- Whatever a program does, the cartridge stays in. -/
theorem Bus.present_closed : Bus.Closed fun b => b.cartridge.isSome :=
  .of_parts (fun _ _ h => h) (fun _ _ h => h) (fun _ _ h => h) fun _ _ h =>
    Option.isSome_map.trans h

namespace Console

/-! ## What instructions and interrupts leave alone -/

/-- The same frame clock and settings, and still a cartridge. -/
structure SameFrame (c d : Console) : Prop where
  clock : d.clock = c.clock
  settings : d.settings = c.settings
  present : c.hasProgram → d.hasProgram

namespace SameFrame

variable {c d : Console}

theorem refl (c : Console) : SameFrame c c := ⟨rfl, rfl, id⟩

theorem trans {e : Console} (h : SameFrame c d) (k : SameFrame d e) : SameFrame c e :=
  ⟨k.clock.trans h.clock, k.settings.trans h.settings, k.present ∘ h.present⟩

/-- What the processor does leaves clock and settings alone and takes no cartridge out. -/
theorem exec {α : Type} {act : Exec Bus α}
    (hact : Respects (Exec.Beside (Kept fun b : Bus => b.cartridge.isSome)) act) (c : Console) :
    SameFrame c (execOn act c).2 where
  clock := rfl
  settings := rfl
  present hc := by
    obtain ⟨-, -, -, hpresent⟩ := hact (c.cpu, c.bus) (c.cpu, c.bus) ⟨rfl, rfl, hc⟩
    exact hpresent

/-- Reporting a jam is an entry in the log and a count. -/
theorem reportHalt (halt : Halt) (c : Console) : SameFrame c (reportHalt halt c).2 := by
  rw [reportHalt_eq]
  dsimp only
  split
  · exact .refl c
  · exact ⟨rfl, rfl, id⟩

end SameFrame

theorem reportHalt_cpu (halt : Halt) (c : Console) : (reportHalt halt c).2.cpu = c.cpu := by
  rw [reportHalt_eq]
  dsimp only
  split
  · rfl
  · rfl

/-! ## Costs -/

/-- Getting from `c` to `d` has cost the processor some cycles, which the console has yet to
count. -/
structure Cost (cycles : Nat) (c d : Console) : Prop where
  frame : SameFrame c d
  spent : d.cpu.totalCycles = c.cpu.totalCycles + UInt64.ofNat cycles
  uncounted : d.totals.cpuCycles = c.totals.cpuCycles

/-- The console after the instruction of a step, before any interrupt. -/
def afterInstruction (c : Console) : Console :=
  let (cycles, c) := execOn Exec.step c
  { c with
    totals := { c.totals with cpuSteps := c.totals.cpuSteps + 1 }
    bus := c.bus.tick cycles }

/-- The cycles of the instruction of a step. -/
def instructionCycles (c : Console) : Nat := (execOn Exec.step c).1

theorem afterInstruction_cost {c : Console} (h : c.cpu.halt = none) :
    Cost c.instructionCycles c c.afterInstruction ∧
      2 ≤ c.instructionCycles ∧ c.instructionCycles ≤ 8 := by
  have hframe := SameFrame.exec (Exec.respects_step Bus.present_closed.congruence.1) c
  obtain ⟨hspent, hslow, hfast⟩ := Exec.step_running (s := (c.cpu, c.bus)) h
  refine ⟨⟨⟨rfl, rfl, fun hc => ?_⟩, hspent, rfl⟩, hslow, hfast⟩
  exact Option.isSome_map.trans (hframe.present hc)

/-- Costs add up. -/
theorem Cost.trans {a b : Nat} {c d e : Console} (h : Cost a c d) (k : Cost b d e) :
    Cost (a + b) c e where
  frame := h.frame.trans k.frame
  spent := by rw [k.spent, h.spent, UInt64.ofNat_add, UInt64.add_assoc]
  uncounted := k.uncounted.trans h.uncounted

theorem cost_zero (c : Console) : Cost 0 c c := ⟨.refl c, (UInt64.add_zero _).symm, rfl⟩

/-- A non-maskable interrupt costs seven cycles, or none in a jam. -/
theorem nmi_cost (c : Console) :
    Cost (execOn Exec.nmi c).1 c (execOn Exec.nmi c).2 ∧ (execOn Exec.nmi c).1 ≤ 7 := by
  obtain ⟨hspent, hle⟩ := Exec.nmi_cost (c.cpu, c.bus)
  exact ⟨⟨.exec (Exec.respects_nmi Bus.present_closed.congruence.1) c, hspent, rfl⟩, hle⟩

/-- An interrupt from the line costs seven cycles, or none when it is masked. -/
theorem irq_cost (c : Console) :
    Cost (execOn Exec.irq c).1 c (execOn Exec.irq c).2 ∧ (execOn Exec.irq c).1 ≤ 7 := by
  obtain ⟨hspent, hle⟩ := Exec.irq_cost (c.cpu, c.bus)
  exact ⟨⟨.exec (Exec.respects_irq Bus.present_closed.congruence.1) c, hspent, rfl⟩, hle⟩

/-- What is recorded of an interrupt costs nothing. -/
theorem Cost.recorded {cycles : Nat} {c d : Console} (h : Cost cycles c d) (log : EventLog)
    {totals : Totals} (htotals : totals.cpuCycles = d.totals.cpuCycles) :
    Cost cycles c { d with totals, log } :=
  ⟨⟨h.frame.clock, h.frame.settings, h.frame.present⟩, h.spent, htotals.trans h.uncounted⟩

/-- An interrupt that was requested is taken before one on the line. -/
theorem takeInterrupts_eq (c : Console) : takeInterrupts c =
    if c.nmiRequested then
      let (cycles, d) := execOn Exec.nmi { c with nmiRequested := false }
      (cycles, { d with
        totals := { d.totals with nmis := d.totals.nmis + 1 }
        log := d.log.push (.nmi d.cpu.pc) })
    else if !c.bus.irqLine then (0, c)
    else
      let (cycles, d) := execOn Exec.irq c
      (cycles, if 0 < cycles then { d with
          totals := { d.totals with irqs := d.totals.irqs + 1 }
          log := d.log.push (.irq d.cpu.totalCycles d.cpu.pc) }
        else d) := by
  change (if c.nmiRequested then _ else _ : StateM Console Nat) c = _
  split
  · rfl
  · change (if !c.bus.irqLine then _ else _ : StateM Console Nat) c = _
    split
    · rfl
    · change (if 0 < (execOn Exec.irq c).1 then _ else _ : StateM Console Nat)
        (execOn Exec.irq c).2 = _
      dsimp only
      split <;> rfl

/-- Taking an interrupt, if one is due, costs at most seven cycles. -/
theorem takeInterrupts_cost (c : Console) :
    Cost (takeInterrupts c).1 c (takeInterrupts c).2 ∧ (takeInterrupts c).1 ≤ 7 := by
  -- dropping the request and counting the interrupt cost nothing
  rw [takeInterrupts_eq]
  split
  · obtain ⟨hcost, hle⟩ := nmi_cost { c with nmiRequested := false }
    have hrequest : Cost _ c _ := ⟨⟨hcost.frame.clock, hcost.frame.settings, hcost.frame.present⟩,
      hcost.spent, hcost.uncounted⟩
    exact ⟨hrequest.recorded _ rfl, hle⟩
  · split
    · exact ⟨cost_zero c, Nat.zero_le 7⟩
    · obtain ⟨hcost, hle⟩ := irq_cost c
      refine ⟨?_, hle⟩
      dsimp only
      split
      · exact hcost.recorded _ rfl
      · exact hcost

/-! ## Steps -/

/-- Without a program a step is refused and changes nothing. -/
theorem step_absent {c : Console} (h : c.hasProgram = false) :
    step.run c = (.error .noProgram, c) := by
  unfold step
  simp only [Run.bind_run, Run.get_run, Run.throw_run, h, Bool.not_false, if_true]

/-- In a jam a step is refused and changes nothing. -/
theorem step_jammed {c : Console} (h : c.hasProgram) {halt : Halt}
    (hhalt : c.cpu.halt = some halt) :
    step.run c = (.error (.halted halt), c) := by
  unfold step
  simp only [Run.bind_run, Run.get_run, Run.throw_run, h, hhalt, Bool.not_true, if_false,
    Bool.false_eq_true]

/-- A step of a running processor ends in an error just if the instruction jams it. -/
theorem step_running {c : Console} (h : c.hasProgram) (hhalt : c.cpu.halt = none) :
    step.run c =
      match c.afterInstruction.cpu.halt with
      | some halt => (.error (.halted halt), (reportHalt halt c.afterInstruction).2)
      | none =>
        let (extra, d) := takeInterrupts c.afterInstruction
        (.ok (c.instructionCycles + extra), { d with
          bus := d.bus.tick extra
          totals := { d.totals with
            cpuCycles := d.totals.cpuCycles + UInt64.ofNat (c.instructionCycles + extra) } }) := by
  have hafter : (onBus (·.tick (execOn Exec.step c).1)
      (count (fun t => { t with cpuSteps := t.cpuSteps + 1 }) (execOn Exec.step c).2).2).2 =
      c.afterInstruction := rfl
  unfold step
  simp only [Run.bind_run, Run.get_run, Run.exec_run, Run.lift_run, h, hhalt, Bool.not_true,
    if_false, Bool.false_eq_true]
  rw [hafter]
  cases c.afterInstruction.cpu.halt with
  | some halt => rfl
  | none => rfl

end Console

end Famicom
