import Famicom.Cpu.Execute

/-!
# What instructions do to the registers

Apart from what it does to memory, an instruction moves the program counter and the stack pointer
and applies one operation of its own to the registers.  So a relation between the registers before
and after, if it does not depend on those two, need only be checked against the operation.

* `Within` — a computation leaves the registers related to what they were.
* `Instruction.Effect` — the operation of an instruction does.
* `Within.execute` — the instruction does if its operation does.
* `step_eq_instruction`, `step_of_running`, `step_of_jammed` — the two ways of a step.
* `Instruction.effect_of_records` — operations leave jam record and cycle count alone.
-/

namespace Famicom

/-! ## Relations between registers -/

/-- A relation between the registers before and after that composes and does not depend on the
program counter and the stack pointer. -/
structure Roaming (R : Cpu → Cpu → Prop) : Prop where
  refl : ∀ c, R c c
  trans : ∀ {b c d}, R b c → R c d → R b d
  pc : ∀ (c : Cpu) addr, R c { c with pc := addr }
  sp : ∀ (c : Cpu) v, R c { c with sp := v }

/-- What an instruction does to registers other than program counter and stack pointer keeps to
`R`. -/
def Instruction.Effect (R : Cpu → Cpu → Prop) : Instruction → Prop
  | .read op _ => ∀ v c, R c (op.apply v c)
  | .modify op _ => ∀ v c, R c (op.apply v c).2
  | .modifyA op => ∀ c, R c { (op.apply c.a c).2 with a := (op.apply c.a c).1 }
  | .storeMasked op _ => ∀ c, R c (op.apply c).2
  | .register op => ∀ c, R c (op.apply c)
  | .brk => ∀ c, R c (c.put .interruptDisable true)
  | .rti | .plp => ∀ c status, R c { c with p := .ofPulled status }
  | .pla => ∀ c v, R c (c.loadA v)
  | .jam opcode => ∀ c, R c { c with halt := some ⟨opcode, c.pc - 1⟩, pc := c.pc - 1 }
  | _ => True

namespace Exec

variable {σ α β : Type} {R : Cpu → Cpu → Prop}

/-- A computation leaves the registers related to what they were. -/
def Within (R : Cpu → Cpu → Prop) (x : Exec σ α) : Prop := ∀ s, R s.1 (x s).2.1

namespace Within

theorem update {f : Cpu → Cpu} (hf : ∀ c, R c (f c)) : Within R (update f : Exec σ Unit) :=
  fun s => hf s.1

variable (hR : Roaming R)

include hR

theorem pure (a : α) : Within R (Pure.pure a : Exec σ α) := fun s => hR.refl s.1

theorem bind {x : Exec σ α} {f : α → Exec σ β} (hx : Within R x) (hf : ∀ a, Within R (f a)) :
    Within R (x >>= f) := fun s => hR.trans (hx s) (hf _ _)

theorem registers : Within R (registers : Exec σ Cpu) := fun s => hR.refl s.1

theorem advance : Within R (advance : Exec σ UInt16) := fun s => hR.pc s.1 _

theorem jump (addr : UInt16) : Within R (jump addr : Exec σ Unit) := fun s => hR.pc s.1 addr

variable [AddressSpace σ]

/-! ## Access to memory and the stack -/

theorem read (addr : UInt16) : Within R (read addr : Exec σ UInt8) := fun s => hR.refl s.1

theorem write (addr : UInt16) (value : UInt8) : Within R (write addr value : Exec σ Unit) :=
  fun s => hR.refl s.1

theorem readWord (addr : UInt16) : Within R (readWord addr : Exec σ UInt16) :=
  bind hR (read hR _) fun _ => bind hR (read hR _) fun _ => pure hR _

theorem fetch : Within R (fetch : Exec σ UInt8) := bind hR (advance hR) fun _ => read hR _

theorem fetchWord : Within R (fetchWord : Exec σ UInt16) :=
  bind hR (fetch hR) fun _ => bind hR (fetch hR) fun _ => pure hR _

theorem push (value : UInt8) : Within R (push value : Exec σ Unit) :=
  bind hR (registers hR) fun _ => bind hR (write hR _ _) fun _ => update fun c => hR.sp c _

theorem pull : Within R (pull : Exec σ UInt8) := by
  unfold Exec.pull
  exact bind hR (update fun c => hR.sp c _) fun _ => bind hR (registers hR) fun _ => read hR _

theorem pushWord (value : UInt16) : Within R (pushWord value : Exec σ Unit) :=
  bind hR (push hR _) fun _ => push hR _

theorem pullWord : Within R (pullWord : Exec σ UInt16) :=
  bind hR (pull hR) fun _ => bind hR (pull hR) fun _ => pure hR _

theorem readZeroPageWord (pointer : UInt8) :
    Within R (readZeroPageWord pointer : Exec σ UInt16) :=
  bind hR (read hR _) fun _ => bind hR (read hR _) fun _ => pure hR _

theorem readWordInPage (pointer : UInt16) : Within R (readWordInPage pointer : Exec σ UInt16) :=
  bind hR (read hR _) fun _ => bind hR (read hR _) fun _ => pure hR _

/-! ## Instructions -/

theorem locate (mode : Mode) : Within R (locate mode : Exec σ Operand) := by
  cases mode with
  | immediate => exact bind hR (advance hR) fun _ => pure hR _
  | zeroPage => exact bind hR (fetch hR) fun _ => pure hR _
  | zeroPageX | zeroPageY =>
    exact bind hR (fetch hR) fun _ => bind hR (registers hR) fun _ => pure hR _
  | absolute => exact bind hR (fetchWord hR) fun _ => pure hR _
  | absoluteX | absoluteY =>
    exact bind hR (fetchWord hR) fun _ => bind hR (registers hR) fun _ => pure hR _
  | indirectX =>
    exact bind hR (fetch hR) fun _ => bind hR (registers hR) fun _ =>
      bind hR (readZeroPageWord hR _) fun _ => pure hR _
  | indirectY =>
    exact bind hR (fetch hR) fun _ => bind hR (readZeroPageWord hR _) fun _ =>
      bind hR (registers hR) fun _ => pure hR _

theorem operand (mode : Mode) : Within R (operand mode : Exec σ UInt8) :=
  bind hR (locate hR mode) fun _ => read hR _

/-- An instruction keeps to a relation that its operation keeps to. -/
theorem execute {i : Instruction} (hi : i.Effect R) : Within R (execute i : Exec σ Unit) := by
  unfold Exec.execute
  cases i with
  | read op mode => exact bind hR (operand hR mode) fun v => update (hi v)
  | store op mode =>
    exact bind hR (locate hR mode) fun _ => bind hR (registers hR) fun _ => write hR _ _
  | modify op mode =>
    refine bind hR (locate hR mode) fun place => bind hR (read hR _) fun value => ?_
    -- the registers that are put back were read just before
    intro s
    exact hi value s.1
  | modifyA op => exact update hi
  | storeMasked op mode =>
    refine bind hR (locate hR mode) fun place => ?_
    intro s
    exact hi s.1
  | register op => exact update hi
  | skip => exact bind hR (advance hR) fun _ => pure hR _
  | branch flag state =>
    refine bind hR (fetch hR) fun displacement => bind hR (registers hR) fun c => ?_
    split
    · exact jump hR _
    · exact pure hR _
  | brk =>
    exact bind hR (advance hR) fun _ => bind hR (registers hR) fun _ =>
      bind hR (pushWord hR _) fun _ => bind hR (registers hR) fun _ =>
        bind hR (push hR _) fun _ => bind hR (update hi) fun _ =>
          bind hR (readWord hR _) fun _ => jump hR _
  | jsr =>
    exact bind hR (fetchWord hR) fun _ => bind hR (registers hR) fun _ =>
      bind hR (pushWord hR _) fun _ => jump hR _
  | rts => exact bind hR (pullWord hR) fun _ => jump hR _
  | rti =>
    exact bind hR (pull hR) fun status => bind hR (update fun c => hi c status) fun _ =>
      bind hR (pullWord hR) fun _ => jump hR _
  | jmp => exact bind hR (fetchWord hR) fun _ => jump hR _
  | jmpIndirect =>
    exact bind hR (fetchWord hR) fun _ => bind hR (readWordInPage hR _) fun _ => jump hR _
  | pha => exact bind hR (registers hR) fun _ => push hR _
  | php => exact bind hR (registers hR) fun _ => push hR _
  | pla => exact bind hR (pull hR) fun v => update fun c => hi c v
  | plp => exact bind hR (pull hR) fun status => update fun c => hi c status
  | jam opcode => exact update hi

/-- A call from outside moves program counter and stack pointer only. -/
theorem call (target returnTo : UInt16) : Within R (call target returnTo : Exec σ Unit) :=
  bind hR (pushWord hR _) fun _ => jump hR _

end Within

/-! ## Steps -/

section

variable [AddressSpace σ]

/-- Fetch an opcode and execute its instruction. -/
def instruction : Exec σ Nat := do
  let opcode ← fetch
  execute (Instruction.decode opcode)
  update (·.spend (Timing.cycles opcode))
  return Timing.cycles opcode

theorem step_eq_instruction {s : Cpu × σ} (running : s.1.halt = none) :
    step s = instruction s := by
  change (if s.1.halt.isSome then _ else _ : Exec σ Nat) s = _
  rw [running]
  rfl

/-- A step of a running processor executes the instruction that it fetches and counts its cycles. -/
theorem step_of_running {c : Cpu} {m : σ} (running : c.halt = none) :
    step (c, m) =
      let fetched := AddressSpace.read c.pc m
      let after := (execute (Instruction.decode fetched.1) ({ c with pc := c.pc + 1 }, fetched.2)).2
      (Timing.cycles fetched.1, after.1.spend (Timing.cycles fetched.1), after.2) :=
  step_eq_instruction running

theorem step_of_jammed {s : Cpu × σ} (jammed : s.1.halt.isSome) : step s = (0, s) :=
  congrFun (if_pos jammed) s

end

end Exec

/-! ## Jam record and cycle count -/

/-- Neither the jam record nor the cycle count has changed. -/
def Cpu.SameRecords (c d : Cpu) : Prop := d.halt = c.halt ∧ d.totalCycles = c.totalCycles

theorem ReadOp.sameRecords (op : ReadOp) (v : UInt8) (c : Cpu) : c.SameRecords (op.apply v c) := by
  cases op <;> exact ⟨rfl, rfl⟩

theorem ModifyOp.sameRecords (op : ModifyOp) (v : UInt8) (c : Cpu) :
    c.SameRecords (op.apply v c).2 := by
  cases op <;> exact ⟨rfl, rfl⟩

theorem MaskedStoreOp.sameRecords (op : MaskedStoreOp) (c : Cpu) :
    c.SameRecords (op.apply c).2 := by
  cases op <;> exact ⟨rfl, rfl⟩

theorem RegisterOp.sameRecords (op : RegisterOp) (c : Cpu) : c.SameRecords (op.apply c) := by
  cases op <;> exact ⟨rfl, rfl⟩

/-- An operation keeps to whatever depends on jam record and cycle count alone, unless it jams the
processor. -/
theorem Instruction.effect_of_records {R : Cpu → Cpu → Prop}
    (hR : ∀ {c d : Cpu}, c.SameRecords d → R c d) {i : Instruction}
    (hjam : ∀ opcode, i = .jam opcode → i.Effect R) : i.Effect R := by
  cases i with
  | read op mode => exact fun v c => hR (op.sameRecords v c)
  | modify op mode => exact fun v c => hR (op.sameRecords v c)
  | modifyA op => exact fun c => hR (op.sameRecords c.a c)
  | storeMasked op mode => exact fun c => hR (op.sameRecords c)
  | register op => exact fun c => hR (op.sameRecords c)
  | brk => exact fun c => hR ⟨rfl, rfl⟩
  | rti | plp => exact fun c status => hR ⟨rfl, rfl⟩
  | pla => exact fun c v => hR ⟨rfl, rfl⟩
  | jam opcode => exact hjam opcode rfl
  | _ => trivial

theorem Roaming.of_records {γ : Type} {view : Cpu → γ}
    (hview : ∀ {c d : Cpu}, c.SameRecords d → view d = view c) :
    Roaming fun c d => view d = view c where
  refl _ := rfl
  trans h k := k.trans h
  pc _ _ := hview ⟨rfl, rfl⟩
  sp _ _ := hview ⟨rfl, rfl⟩

end Famicom
