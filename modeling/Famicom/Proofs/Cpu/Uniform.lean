import Famicom.Cpu.Execute
import Famicom.Proofs.Respect

/-!
# The processor sees only what it reads

If two address spaces answer reads alike, and go on doing so after the same reads and writes, then
a processor cannot tell them apart: it executes the same instruction, takes the same cycles and
leaves related address spaces behind.

* `Exec.respects_step`, `Exec.respects_nmi`, `Exec.respects_irq` — instructions and interrupts.
-/

namespace Famicom

/-- A relation of address spaces that reads and writes cannot break, and under which reads give the
same bytes. -/
structure AddressSpace.Congruence {σ : Type} [AddressSpace σ] (R : σ → σ → Prop) : Prop where
  read_eq : ∀ s t addr, R s t → (AddressSpace.read addr s).1 = (AddressSpace.read addr t).1
  read : ∀ s t addr, R s t → R (AddressSpace.read addr s).2 (AddressSpace.read addr t).2
  write : ∀ s t addr value, R s t →
    R (AddressSpace.write addr value s) (AddressSpace.write addr value t)

namespace Exec

variable {σ : Type}

/-- The same registers beside related address spaces. -/
def Beside (R : σ → σ → Prop) (s t : Cpu × σ) : Prop := s.1 = t.1 ∧ R s.2 t.2

variable {R : σ → σ → Prop}

/-! ## Access to memory and the stack -/

theorem respects_registers : Respects (Beside R) registers := fun _ _ h => ⟨h.1, h⟩

theorem respects_update (f : Cpu → Cpu) : Respects (Beside R) (update f) := by
  rintro ⟨c, s⟩ ⟨d, t⟩ ⟨hcpu, hspace⟩
  exact ⟨rfl, congrArg f hcpu, hspace⟩

theorem respects_advance : Respects (Beside R) advance := by
  rintro ⟨c, s⟩ ⟨d, t⟩ ⟨hcpu, hspace⟩
  cases hcpu
  exact ⟨rfl, rfl, hspace⟩

theorem respects_jump (addr : UInt16) : Respects (Beside R) (jump addr) := respects_update _

variable [AddressSpace σ] (hR : AddressSpace.Congruence R)

include hR

theorem respects_read (addr : UInt16) : Respects (Beside R) (read addr) := by
  rintro ⟨c, s⟩ ⟨d, t⟩ ⟨hcpu, hspace⟩
  exact ⟨hR.read_eq s t addr hspace, hcpu, hR.read s t addr hspace⟩

theorem respects_write (addr : UInt16) (value : UInt8) :
    Respects (Beside R) (write addr value) := by
  rintro ⟨c, s⟩ ⟨d, t⟩ ⟨hcpu, hspace⟩
  exact ⟨rfl, hcpu, hR.write s t addr value hspace⟩

theorem respects_readWord (addr : UInt16) : Respects (Beside R) (readWord addr) := by
  unfold readWord
  exact (respects_read hR _).bind fun lo => (respects_read hR _).bind fun hi => .pure _

theorem respects_fetch : Respects (Beside R) fetch := by
  unfold fetch
  exact respects_advance.bind fun addr => respects_read hR addr

theorem respects_fetchWord : Respects (Beside R) fetchWord := by
  unfold fetchWord
  exact (respects_fetch hR).bind fun lo => (respects_fetch hR).bind fun hi => .pure _

theorem respects_push (value : UInt8) : Respects (Beside R) (push value) := by
  unfold push
  exact respects_registers.bind fun c => (respects_write hR _ _).bind fun _ => respects_update _

theorem respects_pull : Respects (Beside R) pull := by
  unfold pull
  exact (respects_update _).bind fun _ => respects_registers.bind fun c => respects_read hR _

theorem respects_pushWord (value : UInt16) : Respects (Beside R) (pushWord value) := by
  unfold pushWord
  exact (respects_push hR _).bind fun _ => respects_push hR _

theorem respects_pullWord : Respects (Beside R) pullWord := by
  unfold pullWord
  exact (respects_pull hR).bind fun lo => (respects_pull hR).bind fun hi => .pure _

/-! ## Operands -/

theorem respects_readZeroPageWord (pointer : UInt8) :
    Respects (Beside R) (readZeroPageWord pointer) := by
  unfold readZeroPageWord
  exact (respects_read hR _).bind fun lo => (respects_read hR _).bind fun hi => .pure _

theorem respects_readWordInPage (pointer : UInt16) :
    Respects (Beside R) (readWordInPage pointer) := by
  unfold readWordInPage
  exact (respects_read hR _).bind fun lo => (respects_read hR _).bind fun hi => .pure _

theorem respects_locate (mode : Mode) : Respects (Beside R) (locate mode) := by
  cases mode with
  | immediate => exact respects_advance.bind fun addr => .pure _
  | zeroPage => exact (respects_fetch hR).bind fun pointer => .pure _
  | zeroPageX =>
    exact (respects_fetch hR).bind fun pointer => respects_registers.bind fun c => .pure _
  | zeroPageY =>
    exact (respects_fetch hR).bind fun pointer => respects_registers.bind fun c => .pure _
  | absolute => exact (respects_fetchWord hR).bind fun addr => .pure _
  | absoluteX =>
    exact (respects_fetchWord hR).bind fun base => respects_registers.bind fun c => .pure _
  | absoluteY =>
    exact (respects_fetchWord hR).bind fun base => respects_registers.bind fun c => .pure _
  | indirectX =>
    exact (respects_fetch hR).bind fun pointer => respects_registers.bind fun c =>
      (respects_readZeroPageWord hR _).bind fun addr => .pure _
  | indirectY =>
    exact (respects_fetch hR).bind fun pointer =>
      (respects_readZeroPageWord hR pointer).bind fun base =>
        respects_registers.bind fun c => .pure _

theorem respects_operand (mode : Mode) : Respects (Beside R) (operand mode) := by
  unfold operand
  exact (respects_locate hR mode).bind fun place => respects_read hR _

/-! ## Instructions -/

theorem respects_execute (i : Instruction) : Respects (Beside R) (execute i) := by
  have hregisters : Respects (Beside R) registers := respects_registers
  cases i with
  | read op mode => exact (respects_operand hR mode).bind fun value => respects_update _
  | store op mode =>
    exact (respects_locate hR mode).bind fun place => hregisters.bind fun c =>
      respects_write hR _ _
  | modify op mode =>
    exact (respects_locate hR mode).bind fun place => (respects_read hR _).bind fun value =>
      hregisters.bind fun c => (respects_update _).bind fun _ => respects_write hR _ _
  | modifyA op => exact respects_update _
  | storeMasked op mode =>
    exact (respects_locate hR mode).bind fun place => hregisters.bind fun c =>
      (respects_update _).bind fun _ => respects_write hR _ _
  | register op => exact respects_update _
  | skip => exact respects_advance.bind fun _ => .pure _
  | branch flag state =>
    exact (respects_fetch hR).bind fun displacement => hregisters.bind fun c =>
      .ite (respects_jump _) (.pure _)
  | brk =>
    exact respects_advance.bind fun _ => hregisters.bind fun c =>
      (respects_pushWord hR _).bind fun _ => hregisters.bind fun c =>
        (respects_push hR _).bind fun _ => (respects_update _).bind fun _ =>
          (respects_readWord hR _).bind fun target => respects_jump target
  | jsr =>
    exact (respects_fetchWord hR).bind fun target => hregisters.bind fun c =>
      (respects_pushWord hR _).bind fun _ => respects_jump target
  | rts => exact (respects_pullWord hR).bind fun addr => respects_jump _
  | rti =>
    exact (respects_pull hR).bind fun status => (respects_update _).bind fun _ =>
      (respects_pullWord hR).bind fun addr => respects_jump addr
  | jmp => exact (respects_fetchWord hR).bind fun addr => respects_jump addr
  | jmpIndirect =>
    exact (respects_fetchWord hR).bind fun pointer =>
      (respects_readWordInPage hR pointer).bind fun addr => respects_jump addr
  | pha => exact hregisters.bind fun c => respects_push hR _
  | php => exact hregisters.bind fun c => respects_push hR _
  | pla => exact (respects_pull hR).bind fun value => respects_update _
  | plp => exact (respects_pull hR).bind fun status => respects_update _
  | jam opcode => exact respects_update _

/-- A step cannot tell related address spaces apart. -/
theorem respects_step : Respects (Beside R) step := by
  unfold step
  refine respects_registers.bind fun c => .ite (.pure _) ?_
  exact (respects_fetch hR).bind fun opcode => (respects_execute hR _).bind fun _ =>
    (respects_update _).bind fun _ => .pure _

/-! ## Reset, interrupts and calls from outside -/

theorem respects_reset : Respects (Beside R) reset := by
  unfold reset
  exact (respects_update _).bind fun _ => (respects_readWord hR _).bind fun addr =>
    respects_jump addr

theorem respects_interrupt (vector : UInt16) : Respects (Beside R) (interrupt vector) := by
  unfold interrupt
  exact respects_registers.bind fun c => (respects_pushWord hR _).bind fun _ =>
    respects_registers.bind fun c => (respects_push hR _).bind fun _ =>
      (respects_update _).bind fun _ => (respects_readWord hR _).bind fun target =>
        (respects_jump target).bind fun _ => (respects_update _).bind fun _ => .pure _

theorem respects_nmi : Respects (Beside R) nmi := by
  unfold nmi
  exact respects_registers.bind fun c => .ite (.pure _) (respects_interrupt hR _)

theorem respects_irq : Respects (Beside R) irq := by
  unfold irq
  exact respects_registers.bind fun c => .ite (.pure _) (respects_interrupt hR _)

theorem respects_call (target returnTo : UInt16) :
    Respects (Beside R) (call target returnTo) := by
  unfold call
  exact (respects_pushWord hR _).bind fun _ => respects_jump _

end Exec

end Famicom
