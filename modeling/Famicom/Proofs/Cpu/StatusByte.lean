import Famicom.Proofs.Cpu.Cycles
import Famicom.Proofs.Cpu.Jams
import Famicom.Proofs.Cpu.Stack

/-!
# The status byte

Two of the eight bits of the status byte are no flags: the register always has unused set and break
clear.  Only the copies on the stack have a break bit that means something, and it tells who made
them.  The decimal flag is a flag like the others, but no result ever sets it: it is written by the
two instructions made for it, pulled from the stack, and cleared by a reset.

* `Status.Reserved` — a status from which only flags of results have been written.
* `Instruction.effect_of_reserved` — all that an operation does, but for four instructions.
* `Exec.stored_run` — unused and break in every run.
* `Exec.decimal_moved` — what changes the decimal flag.
* `Exec.Saves` — what a move pushes when it saves program counter and status.
* `status_byte_kept` — all of it for every bus.
-/

namespace Famicom

open Famicom.Matrix (entry)

/-! ## Flags of a status -/

namespace Status

theorem test_put (p : Status) (f g : Flag) (on : Bool) :
    (p.put f on).test g = if g = .unused then true else if g = f then on else p.test g := by
  rw [Matrix.test_eq_get, Matrix.put_eq_assign, Matrix.Flags.ofByte_toByte, Matrix.test_eq_get]
  cases g <;> cases f <;> rfl

/-- Pulling forces the unused bit, clears the break bit and takes the rest. -/
theorem test_ofPulled (b : UInt8) (f : Flag) :
    (ofPulled b).test f =
      if f = .unused then true else if f = .brk then false else (Status.mk b).test f := by
  rw [Matrix.pulledStatus_eq, Matrix.test_eq_get, Matrix.pulledStatus, Matrix.Flags.ofByte_toByte,
    Matrix.test_eq_get]
  cases f <;> rfl

/-- What the register holds of the two bits that are no flags. -/
structure Stored (p : Status) : Prop where
  unused : p.test .unused = true
  brk : p.test .brk = false

theorem stored_powerOn : powerOn.Stored := ⟨rfl, rfl⟩

theorem stored_ofPulled (b : UInt8) : (ofPulled b).Stored := by
  constructor <;> rw [test_ofPulled] <;> rfl

/-- From `p` to `q` nothing but flags of results has been written: break and decimal are the same,
and unused has not been cleared. -/
structure Reserved (p q : Status) : Prop where
  brk : q.test .brk = p.test .brk
  decimal : q.test .decimal = p.test .decimal
  unused : p.test .unused = true → q.test .unused = true

variable {p q : Status}

theorem Reserved.refl (p : Status) : p.Reserved p := ⟨rfl, rfl, id⟩

/-- Putting a flag other than break and decimal is a flag of a result. -/
theorem Reserved.put (h : p.Reserved q) {f : Flag} (on : Bool)
    (hf : f ≠ .brk ∧ f ≠ .decimal := by decide) : p.Reserved (q.put f on) := by
  refine ⟨?_, ?_, fun _ => by rw [test_put]; rfl⟩
  · rw [test_put, if_neg (by decide), if_neg hf.1.symm, h.brk]
  · rw [test_put, if_neg (by decide), if_neg hf.2.symm, h.decimal]

theorem Reserved.putResult (h : p.Reserved q) (v : UInt8) : p.Reserved (q.putResult v) :=
  (h.put _).put _

theorem Reserved.stored (h : p.Reserved q) (hp : p.Stored) : q.Stored :=
  ⟨h.unused hp.unused, h.brk.trans hp.brk⟩

/-- A status stays stored while its break bit is not put. -/
theorem Stored.put (h : p.Stored) {f : Flag} (hf : f ≠ .brk) (on : Bool) : (p.put f on).Stored := by
  constructor
  · rw [test_put]
    rfl
  · rw [test_put, if_neg (by decide), if_neg hf.symm, h.brk]

/-! ## Copies of a status -/

/-- The byte `b` is a copy of the register with the given break bit: unused is set in it, and the
other six bits are those of the register. -/
structure CopiedAs (p : Status) (brk : Bool) (b : UInt8) : Prop where
  brk : hasBits b Flag.brk.mask = brk
  unused : hasBits b Flag.unused.mask = true
  others : ∀ f : Flag, f ≠ .brk → f ≠ .unused → hasBits b f.mask = p.test f

/-- The copy that software pushes is the register with break set. -/
theorem copiedAs_softwareCopy (p : Status) : p.CopiedAs true p.softwareCopy := by
  have htest (f : Flag) : hasBits p.softwareCopy f.mask = (p.put .brk true).test f := rfl
  refine ⟨?_, ?_, fun f hbrk hunused => ?_⟩
  · rw [htest, test_put]
    rfl
  · rw [htest, test_put]
    rfl
  · rw [htest, test_put, if_neg hunused, if_neg hbrk]

/-- The copy that an interrupt pushes is what would be pulled from the register's own byte. -/
theorem copiedAs_interruptCopy (p : Status) : p.CopiedAs false p.interruptCopy := by
  have htest (f : Flag) : hasBits p.interruptCopy f.mask = (ofPulled p.bits).test f := rfl
  refine ⟨?_, ?_, fun f hbrk hunused => ?_⟩
  · rw [htest, test_ofPulled]
    rfl
  · rw [htest, test_ofPulled]
    rfl
  · rw [htest, test_ofPulled, if_neg hunused, if_neg hbrk]

end Status

/-! ## Operations -/

open Status (Reserved)

theorem ReadOp.reserved (op : ReadOp) (v : UInt8) (c : Cpu) : c.p.Reserved (op.apply v c).p := by
  have h := Reserved.refl c.p
  cases op with
  | lda | ldx | ldy | ora | and | eor | lax | las | xaa | lxa => exact h.putResult _
  | adc | sbc => exact ((h.put _).put _).putResult _
  | cmp | cpx | cpy | alr | axs => exact (h.put _).putResult _
  | bit => exact ((h.put _).put _).put _
  | anc => exact (h.putResult _).put _
  | arr => exact ((h.putResult _).put _).put _
  | ignore => exact h

theorem ModifyOp.reserved (op : ModifyOp) (v : UInt8) (c : Cpu) :
    c.p.Reserved (op.apply v c).2.p := by
  have h := Reserved.refl c.p
  cases op with
  | asl | rol | lsr | ror | dcp => exact (h.put _).putResult _
  | dec | inc => exact h.putResult _
  | slo | rla | sre => exact ((h.put _).putResult _).putResult _
  | rra => exact ((((h.put _).putResult _).put _).put _).putResult _
  | isc => exact ((h.put _).put _).putResult _

theorem MaskedStoreOp.reserved (op : MaskedStoreOp) (c : Cpu) :
    c.p.Reserved (op.apply c).2.p := by
  cases op <;> exact .refl c.p

/-- The operations that write the decimal flag. -/
def RegisterOp.writesDecimal : RegisterOp → Bool
  | cld | sed => true
  | _ => false

theorem RegisterOp.reserved {op : RegisterOp} (hop : op.writesDecimal = false) (c : Cpu) :
    c.p.Reserved (op.apply c).p := by
  have h := Reserved.refl c.p
  cases op with
  | tax | tay | txa | tya | tsx | inx | iny | dex | dey => exact h.putResult _
  | clc | sec | cli | sei | clv => exact h.put _
  | txs | nop => exact h
  | cld | sed => cases hop

/-- The instructions that write the decimal flag, or pull it with a status. -/
def Instruction.writesDecimal : Instruction → Bool
  | .register op => op.writesDecimal
  | .plp | .rti => true
  | _ => false

/-- An operation keeps to whatever holds when only flags of results have been written, unless it
writes the decimal flag. -/
theorem Instruction.effect_of_reserved {R : Cpu → Cpu → Prop}
    (hR : ∀ {c d : Cpu}, c.p.Reserved d.p → R c d) {i : Instruction}
    (hdecimal : i.writesDecimal = true → i.Effect R) : i.Effect R := by
  cases i with
  | read op mode => exact fun v c => hR (op.reserved v c)
  | modify op mode => exact fun v c => hR (op.reserved v c)
  | modifyA op => exact fun c => hR (op.reserved c.a c)
  | storeMasked op mode => exact fun c => hR (op.reserved c)
  | register op =>
    cases h : op.writesDecimal with
    | true => exact hdecimal h
    | false => exact fun c => hR (RegisterOp.reserved h c)
  | brk => exact fun c => hR ((Reserved.refl c.p).put true)
  | rti | plp => exact hdecimal rfl
  | pla => exact fun c v => hR ((Reserved.refl c.p).putResult v)
  | jam opcode => exact fun c => hR (.refl c.p)
  | _ => trivial

/-- Every operation leaves what the register holds of the two bits. -/
theorem Instruction.effect_stored (i : Instruction) :
    i.Effect fun c d => c.p.Stored → d.p.Stored := by
  refine Instruction.effect_of_reserved Reserved.stored fun hdecimal => ?_
  cases i with
  | register op =>
    cases op with
    | cld | sed => exact fun c hc => hc.put (by decide) _
    | _ => cases hdecimal
  | rti | plp => exact fun c status _ => Status.stored_ofPulled status
  | _ => cases hdecimal

/-- An operation that does not write the decimal flag leaves it. -/
theorem Instruction.effect_decimal {i : Instruction} (h : i.writesDecimal = false) :
    i.Effect fun c d => d.p.test .decimal = c.p.test .decimal :=
  Instruction.effect_of_reserved Reserved.decimal fun hdecimal => by
    rw [h] at hdecimal
    cases hdecimal

/-- Being stored has nothing to do with program counter and stack pointer. -/
theorem roaming_stored : Roaming fun c d => c.p.Stored → d.p.Stored where
  refl _ := id
  trans h k := k ∘ h
  pc _ _ := id
  sp _ _ := id

theorem roaming_decimal : Roaming fun c d => d.p.test .decimal = c.p.test .decimal where
  refl _ := rfl
  trans h k := k.trans h
  pc _ _ := rfl
  sp _ _ := rfl

/-! ## Moves -/

namespace Exec

/-- What can be done to a processor from outside. -/
inductive Move
  | drive (d : Drive)
  | call (target returnTo : UInt16)
  | reset
  deriving DecidableEq, Repr

variable {σ : Type} [AddressSpace σ]

/-- Processor and bus after a move. -/
def moved (s : Cpu × σ) : Move → Cpu × σ
  | .drive d => (d.exec s).2
  | .call target returnTo => (call target returnTo s).2
  | .reset => (reset s).2

/-- Processor and bus after a list of moves. -/
def run (s : Cpu × σ) (moves : List Move) : Cpu × σ := moves.foldl moved s

/-- An interrupt keeps to a relation that blocking interrupts and counting cycles keep to. -/
theorem Within.interrupt {R : Cpu → Cpu → Prop} (hR : Roaming R)
    (hblock : ∀ c : Cpu, R c (c.put .interruptDisable true))
    (hspend : ∀ (c : Cpu) n, R c (c.spend n)) (vector : UInt16) :
    Within R (interrupt vector : Exec σ Nat) := by
  unfold Exec.interrupt
  exact bind hR (registers hR) fun _ => bind hR (pushWord hR _) fun _ => bind hR (registers hR)
    fun _ => bind hR (push hR _) fun _ => bind hR (update hblock) fun _ =>
      bind hR (readWord hR _) fun _ => bind hR (jump hR _) fun _ =>
        bind hR (update fun c => hspend c _) fun _ => pure hR _

/-- A drive keeps to a relation that the instruction fetched next keeps to, if also blocking
interrupts and counting cycles do. -/
theorem Drive.within {R : Cpu → Cpu → Prop} (hR : Roaming R)
    (hblock : ∀ c : Cpu, R c (c.put .interruptDisable true))
    (hspend : ∀ (c : Cpu) n, R c (c.spend n)) (d : Drive) {s : Cpu × σ}
    (hstep : d = .step → s.1.halt = none →
      (Instruction.decode (AddressSpace.read s.1.pc s.2).1).Effect R) : R s.1 (d.exec s).2.1 := by
  obtain ⟨c, m⟩ := s
  have htaken {x : Exec σ Nat} {vector : UInt16}
      (h : x (c, m) = (0, (c, m)) ∨ x (c, m) = interrupt vector (c, m)) :
      R c (x (c, m)).2.1 := by
    rcases h with hnot | htaken
    · rw [hnot]
      exact hR.refl c
    · rw [htaken]
      exact Within.interrupt hR hblock hspend vector (c, m)
  -- only a step reaches the instruction; an interrupt is masked or taken
  cases d with
  | step =>
    cases hhalt : c.halt with
    | some halt =>
      have hstopped : Exec.step (c, m) = (0, (c, m)) :=
        step_of_jammed (by rw [hhalt]; rfl)
      change R c (Exec.step (c, m)).2.1
      rw [hstopped]
      exact hR.refl c
    | none =>
      change R c (Exec.step (c, m)).2.1
      rw [step_of_running hhalt]
      refine hR.trans (hR.pc c (c.pc + 1)) (hR.trans ?_ (hspend _ _))
      exact Within.execute hR (hstep rfl hhalt)
        ({ c with pc := c.pc + 1 }, (AddressSpace.read c.pc m).2)
  | nmi => exact htaken (nmi_cases (c, m))
  | irq => exact htaken (irq_cases (c, m))

/-! ## Unused and break -/

/-- Every move leaves unused set and break clear. -/
theorem stored_moved {s : Cpu × σ} (h : s.1.p.Stored) (move : Move) :
    (moved s move).1.p.Stored := by
  cases move with
  | drive d =>
    exact d.within roaming_stored (fun c hc => hc.put (by decide) true) (fun c n hc => hc)
      (fun _ _ => Instruction.effect_stored _) h
  | call target returnTo => exact Within.call roaming_stored target returnTo s h
  | reset => exact Status.stored_powerOn

/-- Every run leaves unused set and break clear. -/
theorem stored_run {s : Cpu × σ} (h : s.1.p.Stored) (moves : List Move) :
    (run s moves).1.p.Stored :=
  List.foldlRecOn (motive := fun s : Cpu × σ => s.1.p.Stored) moves moved h
    fun _ h move _ => stored_moved h move

/-! ## The decimal flag -/

/-- The opcode that the processor fetches next. -/
def nextOpcode (s : Cpu × σ) : UInt8 := (AddressSpace.read s.1.pc s.2).1

/-- The moves that may change the decimal flag: a reset, and a step that executes an instruction
made for it or one that pulls a status. -/
def Move.MayChangeDecimal (s : Cpu × σ) : Move → Prop
  | .drive .step => s.1.halt = none ∧ (entry (nextOpcode s)).1 ∈ [.cld, .sed, .plp, .rti]
  | .reset => True
  | _ => False

/-- The matrix has the four names just for the instructions that write the decimal flag. -/
theorem writesDecimal_decode (opcode : UInt8) :
    (Instruction.decode opcode).writesDecimal =
      decide ((entry opcode).1 ∈ [.cld, .sed, .plp, .rti]) := by
  revert opcode
  decide +kernel

/-- No other move changes the decimal flag. -/
theorem decimal_moved {s : Cpu × σ} {move : Move} (h : ¬move.MayChangeDecimal s) :
    (moved s move).1.p.test .decimal = s.1.p.test .decimal := by
  cases move with
  | drive d =>
    refine d.within roaming_decimal
      (fun c => ((Reserved.refl c.p).put true).decimal) (fun c n => rfl) ?_
    rintro rfl running
    have hnot : ¬(entry (nextOpcode s)).1 ∈ [.cld, .sed, .plp, .rti] :=
      fun hmem => h ⟨running, hmem⟩
    exact Instruction.effect_decimal ((writesDecimal_decode _).trans (decide_eq_false hnot))
  | call target returnTo => exact Within.call roaming_decimal target returnTo s
  | reset => exact absurd trivial h

end Exec

/-! ## Pushed copies -/

namespace Recorder

variable {σ : Type}

/-- The bytes that have been written, with their addresses, in the order they were. -/
def written (r : Recorder σ) : List (UInt16 × UInt8) :=
  r.accesses.filterMap fun
    | .read _ _ => none
    | .write addr value => some (addr, value)

/-- Reads add nothing. -/
theorem written_latest_read (r : Recorder σ) (space : σ) (addr : UInt16) (value : UInt8) :
    (⟨space, .read addr value :: r.latest⟩ : Recorder σ).written = r.written := by
  simp [written, accesses]

theorem written_latest_write (r : Recorder σ) (space : σ) (addr : UInt16) (value : UInt8) :
    (⟨space, .write addr value :: r.latest⟩ : Recorder σ).written =
      r.written ++ [(addr, value)] := by
  simp [written, accesses]

end Recorder

namespace Exec

variable {σ : Type} [AddressSpace σ]

/-- From `s` to `t` the address `pc` and a copy of the status of `s` have been pushed, and nothing
else has been written. -/
def Saves (pc : UInt16) (brk : Bool) (s t : Cpu × Recorder σ) : Prop :=
  ∃ b, s.1.p.CopiedAs brk b ∧
    t.2.written = s.2.written ++ (stackCells s.1.sp 3).zip [highByte pc, lowByte pc, b]

/-- What the bus sees of the moves that push a status. -/
structure PushesStatus (s : Cpu × Recorder σ) : Prop where
  php : s.1.halt = none → (entry (nextOpcode s)).1 = .php →
    ∃ b, s.1.p.CopiedAs true b ∧
      (step s).2.2.written = s.2.written ++ (stackCells s.1.sp 1).zip [b]
  brk : s.1.halt = none → (entry (nextOpcode s)).1 = .brk → Saves (s.1.pc + 2) true s (step s).2
  nmi : s.1.halt = none → Saves s.1.pc false s (nmi s).2
  nmi_refused : s.1.halt.isSome → (Exec.nmi s).2 = s
  irq : s.1.halt = none → s.1.p.test .interruptDisable = false → Saves s.1.pc false s (irq s).2
  irq_refused : s.1.halt.isSome ∨ s.1.p.test .interruptDisable = true → (Exec.irq s).2 = s

theorem written_read (addr : UInt16) (s : Cpu × Recorder σ) :
    (read addr s).2.2.written = s.2.written :=
  s.2.written_latest_read _ addr _

theorem written_readWord (addr : UInt16) (s : Cpu × Recorder σ) :
    (readWord addr s).2.2.written = s.2.written :=
  (written_read (addr + 1) _).trans (written_read addr s)

theorem written_push (b : UInt8) (s : Cpu × Recorder σ) :
    (push b s).2.2.written = s.2.written ++ (stackCells s.1.sp 1).zip [b] := by
  refine (s.2.written_latest_write _ s.1.stackAddress b).trans ?_
  rw [Matrix.stackAddress_eq]
  rfl

/-- Pushing an address and a byte writes three cells. -/
theorem written_save (pc : UInt16) (b : UInt8) (s : Cpu × Recorder σ) :
    (push b (pushWord pc s).2).2.2.written =
      s.2.written ++ (stackCells s.1.sp 3).zip [highByte pc, lowByte pc, b] := by
  have hsp : (pushWord pc s).2.1.sp = Matrix.previous (Matrix.previous s.1.sp) := by
    rw [← Matrix.sub_one_eq_previous, ← Matrix.sub_one_eq_previous]
    rfl
  have hlow : (pushWord pc s).2.2.written = (push (highByte pc) s).2.2.written ++
      (stackCells (Matrix.previous s.1.sp) 1).zip [lowByte pc] := by
    rw [← Matrix.sub_one_eq_previous]
    exact written_push (lowByte pc) (push (highByte pc) s).2
  rw [written_push, hsp, hlow, written_push, List.append_assoc, List.append_assoc]
  rfl

theorem interrupt_saves (vector : UInt16) (s : Cpu × Recorder σ) :
    Saves s.1.pc false s (interrupt vector s).2 :=
  ⟨s.1.p.interruptCopy, s.1.p.copiedAs_interruptCopy,
    (written_readWord vector _).trans (written_save s.1.pc s.1.p.interruptCopy s)⟩

/-- The matrix has the two names just for the instructions that push a status. -/
theorem decode_of_pushes {opcode : UInt8} :
    ((entry opcode).1 = .php → Instruction.decode opcode = .php) ∧
      ((entry opcode).1 = .brk → Instruction.decode opcode = .brk) := by
  revert opcode
  decide +kernel

/-- Pushing the status writes its software copy, and that alone. -/
theorem step_php {s : Cpu × Recorder σ} (running : s.1.halt = none)
    (h : (entry (nextOpcode s)).1 = .php) :
    (step s).2.2.written = s.2.written ++ (stackCells s.1.sp 1).zip [s.1.p.softwareCopy] := by
  obtain ⟨c, r⟩ := s
  have hdecode : Instruction.decode (AddressSpace.read c.pc r).1 = .php := decode_of_pushes.1 h
  have hfetch : (fetch (c, r)).2.2.written = r.written :=
    written_read c.pc ({ c with pc := c.pc + 1 }, r)
  rw [step_of_running running]
  simp only [hdecode]
  rw [← hfetch]
  exact written_push c.p.softwareCopy (fetch (c, r)).2

theorem step_brk {s : Cpu × Recorder σ} (running : s.1.halt = none)
    (h : (entry (nextOpcode s)).1 = .brk) : Saves (s.1.pc + 2) true s (step s).2 := by
  obtain ⟨c, r⟩ := s
  have hdecode : Instruction.decode (AddressSpace.read c.pc r).1 = .brk := decode_of_pushes.2 h
  have hfetch : (fetch (c, r)).2.2.written = r.written :=
    written_read c.pc ({ c with pc := c.pc + 1 }, r)
  have hpc : c.pc + 1 + 1 = c.pc + 2 := UInt16.add_assoc ..
  refine ⟨c.p.softwareCopy, c.p.copiedAs_softwareCopy, ?_⟩
  rw [step_of_running running]
  simp only [hdecode, ← hpc]
  rw [← hfetch]
  -- the second byte of the instruction is passed over before the address is pushed
  exact (written_readWord irqVector _).trans
    (written_save (c.pc + 1 + 1) c.p.softwareCopy (advance (fetch (c, r)).2).2)

theorem pushesStatus (s : Cpu × Recorder σ) : PushesStatus s where
  php running h := ⟨_, s.1.p.copiedAs_softwareCopy, step_php running h⟩
  brk := step_brk
  nmi running := by
    have htaken : Exec.nmi s = interrupt nmiVector s :=
      congrFun (if_neg (by rw [running]; decide)) s
    rw [htaken]
    exact interrupt_saves nmiVector s
  nmi_refused jammed := congrArg Prod.snd (Drive.exec_jammed .nmi jammed)
  irq running hclear := by
    have htaken : Exec.irq s = interrupt irqVector s :=
      congrFun (if_neg (by rw [running, hclear]; decide)) s
    rw [htaken]
    exact interrupt_saves irqVector s
  irq_refused hrefused := by
    have hblocked : (s.1.halt.isSome || s.1.p.test .interruptDisable) = true := by
      rwa [Bool.or_eq_true]
    have hrefuses : Exec.irq s = (0, s) := congrFun (if_pos hblocked) s
    rw [hrefuses]

/-- **The status byte in every run.**  On every bus, whatever is done to a processor from power-on:
unused is set and break is clear in its status register.  The copies that are pushed have unused
set, break set by the two instructions that push one and clear by interrupts, and agree with the
register in the other six bits; they are the last byte pushed, on top of the address to return to
where there is one.  The decimal flag is changed by nothing but the instructions `cld`, `sed`, `plp`
and `rti` and by a reset. -/
theorem status_byte_kept {σ : Type} [AddressSpace σ] :
    (∀ (m : σ) (moves : List Move), (run (Cpu.powerOn, m) moves).1.p.Stored) ∧
    (∀ s : Cpu × Recorder σ, PushesStatus s) ∧
    (∀ (s : Cpu × σ) (move : Move),
      (moved s move).1.p.test .decimal ≠ s.1.p.test .decimal → move.MayChangeDecimal s) := by
  refine ⟨fun m moves => stored_run Status.stored_powerOn moves, pushesStatus, ?_⟩
  intro s move hchanged
  by_contra hnot
  exact hchanged (decimal_moved hnot)

/-- Power-on blocks one of the two interrupts, so only the other pushes. -/
theorem status_byte_kept_blocked :
    let s : Cpu × Recorder FlatMemory := (Cpu.powerOn, ⟨.ofBytes #[], []⟩)
    s.1.halt = none ∧ s.1.p.test .interruptDisable = true ∧
      Saves s.1.pc false s (Exec.nmi s).2 ∧ (Exec.irq s).2 = s := by
  intro s
  have hblocked : Status.powerOn.test .interruptDisable = true := rfl
  have hpushes : PushesStatus s := status_byte_kept.2.1 s
  exact ⟨rfl, hblocked, hpushes.nmi rfl, hpushes.irq_refused (.inr hblocked)⟩

end Exec

end Famicom
