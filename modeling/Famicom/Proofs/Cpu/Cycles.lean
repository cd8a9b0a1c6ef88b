import Famicom.Proofs.Cpu.Within

/-!
# What instructions and interrupts cost

The processor counts the cycles it has spent.  Fetching, executing and saving registers count
nothing by themselves; a whole instruction counts the cycles of its opcode, and entering an
interrupt counts those of an interrupt.  What is counted is also what is returned.

* `Exec.step_running` — an instruction of a running processor takes two to eight cycles.
* `Exec.nmi_cost`, `Exec.irq_cost` — an interrupt takes at most seven.
-/

namespace Famicom.Exec

variable {σ α : Type}

/-- The computation leaves the cycle count alone. -/
def Timeless (x : Exec σ α) : Prop := ∀ s, (x s).2.1.totalCycles = s.1.totalCycles

/-- Cycles are counted beside the registers that instructions work on. -/
theorem roaming_totalCycles : Roaming fun c d => d.totalCycles = c.totalCycles :=
  .of_records And.right

/-- No instruction counts its own cycles, not even the one that jams the processor. -/
theorem effect_totalCycles (i : Instruction) :
    i.Effect fun c d => d.totalCycles = c.totalCycles := by
  refine Instruction.effect_of_records And.right ?_
  rintro opcode rfl
  exact fun c => rfl

variable [AddressSpace σ]

/-- A call from outside takes no time. -/
theorem Timeless.call (target returnTo : UInt16) :
    Timeless (call target returnTo : Exec σ Unit) := Within.call roaming_totalCycles _ _

/-- Executing an instruction does not count its cycles; the step around it does. -/
theorem Timeless.instruction :
    Timeless (fetch >>= fun opcode => execute (Instruction.decode opcode) : Exec σ Unit) :=
  Within.bind roaming_totalCycles (.fetch roaming_totalCycles) fun _ =>
    .execute roaming_totalCycles (effect_totalCycles _)

/-! ## Whole instructions and interrupts -/

/-- What was returned as the cost has been counted. -/
def Spends (x : Exec σ Nat) (s : Cpu × σ) : Prop :=
  (x s).2.1.totalCycles = s.1.totalCycles + UInt64.ofNat (x s).1

/-- An instruction of a running processor takes two to eight cycles. -/
theorem step_running {s : Cpu × σ} (h : s.1.halt = none) :
    Spends step s ∧ 2 ≤ (step s).1 ∧ (step s).1 ≤ 8 := by
  unfold Spends
  rw [step_eq_instruction h]
  refine ⟨?_, Timing.two_le_cycles _, Timing.cycles_le_eight _⟩
  exact congrArg (· + _) (Timeless.instruction s)

/-- What an interrupt takes is what it counts. -/
theorem interrupt_spends (vector : UInt16) (s : Cpu × σ) : Spends (interrupt vector) s := by
  have hR := roaming_totalCycles
  have htime : Timeless (do
      pushWord (← registers).pc
      push (← registers).p.interruptCopy
      update (·.put .interruptDisable true)
      jump (← readWord vector) : Exec σ Unit) :=
    Within.bind hR (.registers hR) fun _ => .bind hR (.pushWord hR _) fun _ =>
      .bind hR (.registers hR) fun _ => .bind hR (.push hR _) fun _ =>
        .bind hR (.update fun _ => rfl) fun _ => .bind hR (.readWord hR _) fun _ => .jump hR _
  exact congrArg (· + UInt64.ofNat Timing.interruptCycles) (htime s)

/-- A non-maskable interrupt is taken unless the processor is jammed. -/
theorem nmi_cases (s : Cpu × σ) : nmi s = (0, s) ∨ nmi s = interrupt nmiVector s := by
  change (if s.1.halt.isSome then _ else _ : Exec σ Nat) s = _ ∨
    (if s.1.halt.isSome then _ else _ : Exec σ Nat) s = _
  split
  · exact .inl rfl
  · exact .inr rfl

/-- A maskable interrupt is taken unless the processor is jammed or blocks it. -/
theorem irq_cases (s : Cpu × σ) : irq s = (0, s) ∨ irq s = interrupt irqVector s := by
  change (if s.1.halt.isSome || s.1.p.test .interruptDisable then _ else _ : Exec σ Nat) s = _ ∨
    (if s.1.halt.isSome || s.1.p.test .interruptDisable then _ else _ : Exec σ Nat) s = _
  split
  · exact .inl rfl
  · exact .inr rfl

/-- An interrupt takes seven cycles, or none if it is not taken. -/
theorem cost_of_interrupt {x : Exec σ Nat} {vector : UInt16} {s : Cpu × σ}
    (h : x s = (0, s) ∨ x s = interrupt vector s) : Spends x s ∧ (x s).1 ≤ 7 := by
  unfold Spends
  rcases h with hnot | htaken
  · rw [hnot]
    exact ⟨(UInt64.add_zero _).symm, Nat.zero_le 7⟩
  · rw [htaken]
    exact ⟨interrupt_spends vector s, Nat.le_refl 7⟩

theorem nmi_cost (s : Cpu × σ) : Spends nmi s ∧ (nmi s).1 ≤ 7 := cost_of_interrupt (nmi_cases s)

theorem irq_cost (s : Cpu × σ) : Spends irq s ∧ (irq s).1 ≤ 7 := cost_of_interrupt (irq_cases s)

end Famicom.Exec
