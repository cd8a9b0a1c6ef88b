import Famicom.Proofs.Cpu.Refinement
import Famicom.Proofs.Cpu.Within

/-!
# Combined operations

Six undocumented operations replace a byte in memory and then use the new byte.  Each is a pair of
documented operations on one address: the first replaces the byte, the second uses what is there
afterwards.  The pair may be executed in place of the combined operation, and so may two documented
instructions anywhere in memory that find their operands at that address.

* `ModifyOp.parts?` — the pair.
* `ModifyOp.apply_of_parts` — what it does to a byte and the registers.
* `modifyAt_eq_pair` — and to memory.
* `Agree.step_modify`, `Agree.step_read` — steps of instructions in any mode.
* `combined_is_pair` — combined operations against pairs.
-/

namespace Famicom

open Famicom.Matrix (address flags setFlags passed)

/-! ## The pairs -/

/-- The documented operations that an undocumented one combines: one that replaces a byte, and one
that uses the new byte. -/
def ModifyOp.parts? : ModifyOp → Option (ModifyOp × ReadOp)
  | .slo => some (.asl, .ora)
  | .rla => some (.rol, .and)
  | .sre => some (.lsr, .eor)
  | .rra => some (.ror, .adc)
  | .dcp => some (.dec, .cmp)
  | .isc => some (.inc, .sbc)
  | _ => none

/-- What sets the flags of a result anew does not care for those of the last one. -/
theorem Matrix.setFlags_setResult (c : Cpu) (w : UInt8) {g : Flags → Flags}
    (hg : ∀ f zero negative, { g { f with zero, negative, unused := true } with unused := true } =
      { g f with unused := true }) :
    setFlags (setResult c w) g = setFlags c g := by
  have hflags := hg (flags c) (w.toNat = 0) (128 ≤ w.toNat)
  rw [setResult, setFlags_setFlags]
  exact congrArg (fun f : Flags => { c with p := ⟨f.toByte⟩ }) hflags

/-- A comparison sets zero and sign anew, so setting them before is lost. -/
theorem Cpu.compare_putResult (c : Cpu) (r v w : UInt8) :
    (c.putResult w).compare r v = c.compare r v := by
  rw [Matrix.compare_eq, Matrix.compare_eq, Matrix.putResult_eq, Matrix.compare, Matrix.compare]
  exact Matrix.setFlags_setResult c w fun f zero negative => rfl

/-- A difference reads of the flags the carry only. -/
theorem Cpu.sbc_putResult (c : Cpu) (v w : UInt8) : (c.putResult w).sbc v = c.sbc v := by
  have ha : (Matrix.setResult c w).a = c.a := rfl
  have hcarry : (flags (Matrix.setResult c w)).carry = (flags c).carry := by
    rw [Matrix.setResult, Matrix.flags_setFlags]
  have hout (out : UInt8) : ({ Matrix.setResult c w with a := out } : Cpu) =
      Matrix.setResult { c with a := out } w := rfl
  rw [Matrix.sbc_eq_subtract, Matrix.sbc_eq_subtract, Matrix.putResult_eq,
    Matrix.subtract_eq_setFlags, Matrix.subtract_eq_setFlags, hcarry, ha]
  simp only [hout]
  exact Matrix.setFlags_setResult _ w fun f zero negative => rfl

/-- A combined operation leaves the byte that its first part leaves, and the registers that its
second part makes of that byte. -/
theorem ModifyOp.apply_of_parts {op first : ModifyOp} {second : ReadOp}
    (h : op.parts? = some (first, second)) (v : UInt8) (c : Cpu) :
    op.apply v c =
      ((first.apply v c).1, second.apply (first.apply v c).1 (first.apply v c).2) := by
  cases op with
  | slo | rla | sre | rra =>
    obtain ⟨rfl, rfl⟩ := Prod.mk.inj (Option.some.inj h)
    rfl
  | dcp =>
    obtain ⟨rfl, rfl⟩ := Prod.mk.inj (Option.some.inj h)
    exact congrArg (v - 1, ·) (c.compare_putResult c.a (v - 1) (v - 1)).symm
  | isc =>
    obtain ⟨rfl, rfl⟩ := Prod.mk.inj (Option.some.inj h)
    exact congrArg (v + 1, ·) (c.sbc_putResult (v + 1) (v + 1)).symm
  | asl | rol | lsr | ror | dec | inc => cases h

/-! ## On an address -/

namespace Exec

variable {σ : Type} [AddressSpace σ]

/-- Replace the byte at an address. -/
def modifyAt (op : ModifyOp) (addr : UInt16) : Exec σ Unit := do
  let value ← read addr
  let (out, c) := op.apply value (← registers)
  update fun _ => c
  write addr out

/-- Use the byte at an address. -/
def readAt (op : ReadOp) (addr : UInt16) : Exec σ Unit := do
  let value ← read addr
  update (op.apply value)

/-- Work on an address with both parts of a combined operation, one after the other. -/
def pairAt (first : ModifyOp) (second : ReadOp) (addr : UInt16) : Exec σ Unit := do
  modifyAt first addr
  readAt second addr

theorem modifyAt_flat (op : ModifyOp) (addr : UInt16) (s : Cpu × FlatMemory) :
    modifyAt op addr s =
      ((), (op.apply (s.2.get addr) s.1).2, s.2.set addr (op.apply (s.2.get addr) s.1).1) := rfl

theorem readAt_flat (op : ReadOp) (addr : UInt16) (s : Cpu × FlatMemory) :
    readAt op addr s = ((), op.apply (s.2.get addr) s.1, s.2) := rfl

/-- A combined operation on an address is its pair on that address. -/
theorem modifyAt_eq_pair {op first : ModifyOp} {second : ReadOp}
    (h : op.parts? = some (first, second)) (addr : UInt16) (s : Cpu × FlatMemory) :
    modifyAt op addr s = pairAt first second addr s := by
  let v := s.2.get addr
  calc modifyAt op addr s
      = ((), (op.apply v s.1).2, s.2.set addr (op.apply v s.1).1) := modifyAt_flat ..
    _ = ((), second.apply (first.apply v s.1).1 (first.apply v s.1).2,
          s.2.set addr (first.apply v s.1).1) := by
        rw [ModifyOp.apply_of_parts h]
    _ = readAt second addr ((first.apply v s.1).2, s.2.set addr (first.apply v s.1).1) := by
        rw [readAt_flat, FlatMemory.get_set_self]
    _ = pairAt first second addr s := rfl

end Exec

open Exec

/-! ## Machines that agree -/

/-- Two machines agree on accumulator, index registers, stack pointer, status and memory. -/
structure Agree (s t : Cpu × FlatMemory) : Prop where
  a : t.1.a = s.1.a
  x : t.1.x = s.1.x
  y : t.1.y = s.1.y
  sp : t.1.sp = s.1.sp
  p : t.1.p = s.1.p
  memory : t.2 = s.2

namespace Agree

variable {s t u : Cpu × FlatMemory}

theorem symm (h : Agree s t) : Agree t s :=
  ⟨h.a.symm, h.x.symm, h.y.symm, h.sp.symm, h.p.symm, h.memory.symm⟩

theorem trans (h : Agree s t) (k : Agree t u) : Agree s u :=
  ⟨k.a.trans h.a, k.x.trans h.x, k.y.trans h.y, k.sp.trans h.sp, k.p.trans h.p,
    k.memory.trans h.memory⟩

/-- A machine may be moved to another place in the program, and out of a jam. -/
theorem moved (s : Cpu × FlatMemory) (pc : UInt16) (halt : Option Halt) :
    Agree s ({ s.1 with pc, halt }, s.2) := ⟨rfl, rfl, rfl, rfl, rfl, rfl⟩

/-- Machines that agree differ in program counter, jam record and cycle count only. -/
theorem eq_with (h : Agree s t) :
    t = ({ s.1 with pc := t.1.pc, halt := t.1.halt, totalCycles := t.1.totalCycles }, s.2) := by
  obtain ⟨⟨a, x, y, p, sp, pc, halt, total⟩, m⟩ := t
  obtain ⟨rfl, rfl, rfl, rfl, rfl, rfl⟩ := h
  rfl

/-- Operations that replace a byte do not look at where the program stands. -/
theorem modifyAt (h : Agree s t) (op : ModifyOp) (addr : UInt16) :
    Agree (modifyAt op addr s).2 (modifyAt op addr t).2 := by
  rw [h.eq_with]
  cases op <;> exact ⟨rfl, rfl, rfl, rfl, rfl, rfl⟩

/-- Nor do those that use one. -/
theorem readAt (h : Agree s t) (op : ReadOp) (addr : UInt16) :
    Agree (readAt op addr s).2 (readAt op addr t).2 := by
  rw [h.eq_with]
  cases op <;> exact ⟨rfl, rfl, rfl, rfl, rfl, rfl⟩

end Agree

/-! ## Steps -/

/-- A running machine whose next instruction is `i`. -/
structure Faces (i : Instruction) (s : Cpu × FlatMemory) : Prop where
  running : s.1.halt = none
  decoded : Instruction.decode (s.2.get s.1.pc) = i

/-- Where an operand lies, found from the state before the instruction. -/
def operandAt (mode : Mode) (s : Cpu × FlatMemory) : UInt16 := address (.ofMode mode) s.1 s.2

namespace Agree

variable {s : Cpu × FlatMemory} {mode : Mode}

/-- A step ends the instruction and counts its cycles. -/
theorem of_execute {i : Instruction} (h : Faces i s) :
    Agree (execute i ({ s.1 with pc := s.1.pc + 1 }, s.2)).2 (step s).2 := by
  obtain ⟨c, m⟩ := s
  rw [step_of_running h.running, ← h.decoded]
  exact ⟨rfl, rfl, rfl, rfl, rfl, rfl⟩

/-- An instruction that replaces a byte works on the address of its operand, in every mode. -/
theorem step_modify {op : ModifyOp} (h : Faces (.modify op mode) s) :
    Agree (Exec.modifyAt op (operandAt mode s) s).2 (step s).2 := by
  have hplace := Matrix.locate_eq mode s.1 s.2
  have hexec : execute (.modify op mode) ({ s.1 with pc := s.1.pc + 1 }, s.2) =
      Exec.modifyAt op (operandAt mode s) (passed (.ofMode mode) s.1, s.2) := by
    change Exec.modifyAt op (locate mode _).1.address (locate mode _).2 = _
    rw [hplace]
    rfl
  have hmoved : Agree s (passed (.ofMode mode) s.1, s.2) := moved s _ _
  have hstep := of_execute h
  rw [hexec] at hstep
  exact (hmoved.modifyAt op _).trans hstep

/-- So does one that uses a byte. -/
theorem step_read {op : ReadOp} (h : Faces (.read op mode) s) :
    Agree (Exec.readAt op (operandAt mode s) s).2 (step s).2 := by
  have hplace := Matrix.locate_eq mode s.1 s.2
  have hexec : execute (.read op mode) ({ s.1 with pc := s.1.pc + 1 }, s.2) =
      Exec.readAt op (operandAt mode s) (passed (.ofMode mode) s.1, s.2) := by
    change Exec.readAt op (locate mode _).1.address (locate mode _).2 = _
    rw [hplace]
    rfl
  have hmoved : Agree s (passed (.ofMode mode) s.1, s.2) := moved s _ _
  have hstep := of_execute h
  rw [hexec] at hstep
  exact (hmoved.readAt op _).trans hstep

end Agree

/-! ## Modes -/

/-- The modes of the combined operations. -/
def combinedModes : List Mode :=
  [.zeroPage, .zeroPageX, .absolute, .absoluteX, .absoluteY, .indirectX, .indirectY]

/-- A combined operation has one of the seven modes. -/
def Instruction.combinesInMode : Instruction → Bool
  | .modify op mode => op.parts?.isNone || combinedModes.contains mode
  | _ => true

/-- No opcode combines operations in another mode. -/
theorem combinesInMode_decode (opcode : UInt8) :
    (Instruction.decode opcode).combinesInMode = true := by
  revert opcode
  decide +kernel

/-- The first opcode in the row of a combined operation. -/
def ModifyOp.combinedRow : ModifyOp → UInt8
  | .slo => 0x03
  | .rla => 0x23
  | .sre => 0x43
  | .rra => 0x63
  | .dcp => 0xC3
  | _ => 0xE3

/-- How far into its row the opcode of a mode is. -/
def Mode.combinedColumn : Mode → UInt8
  | .zeroPage => 0x04
  | .absolute => 0x0C
  | .indirectY => 0x10
  | .zeroPageX => 0x14
  | .absoluteY => 0x18
  | .absoluteX => 0x1C
  | _ => 0x00

/-- Each combined operation has an opcode for each of the seven modes, and for no other. -/
theorem exists_combined_iff {op : ModifyOp} (h : op.parts?.isSome) (mode : Mode) :
    (∃ opcode, Instruction.decode opcode = .modify op mode) ↔ mode ∈ combinedModes := by
  constructor
  · rintro ⟨opcode, hopcode⟩
    have hmode := combinesInMode_decode opcode
    rw [hopcode, Instruction.combinesInMode, Bool.or_eq_true, List.contains_iff_mem] at hmode
    refine hmode.resolve_left fun hnone => ?_
    rw [Option.isNone_iff_eq_none.mp hnone] at h
    cases h
  · intro hmode
    refine ⟨op.combinedRow + mode.combinedColumn, ?_⟩
    cases op with
    | slo | rla | sre | rra | dcp | isc =>
      cases mode with
      | immediate | zeroPageY => simp [combinedModes] at hmode
      | _ => rfl
    | _ => cases h

/-! ## Combined operations and pairs -/

/-- **A combined operation is a pair of documented ones.**  On any address it does to registers and
memory what its two parts do there one after the other.  In each of the seven modes that it has, a
step agrees with the pair on the address found from the state before the step.  It also agrees with
two steps of documented instructions, wherever they stand and whatever their modes, if both work on
that address. -/
theorem combined_is_pair {op first : ModifyOp} {second : ReadOp}
    (hparts : op.parts? = some (first, second)) :
    (∀ addr (s : Cpu × FlatMemory), modifyAt op addr s = pairAt first second addr s) ∧
    (∀ mode, (∃ opcode, Instruction.decode opcode = .modify op mode) ↔ mode ∈ combinedModes) ∧
    (∀ mode s, Faces (.modify op mode) s →
      Agree (step s).2 (pairAt first second (operandAt mode s) s).2) ∧
    (∀ mode mode₁ mode₂ s t u, Faces (.modify op mode) s →
      Faces (.modify first mode₁) t → Agree s t → operandAt mode₁ t = operandAt mode s →
      Faces (.read second mode₂) u → Agree (step t).2 u → operandAt mode₂ u = operandAt mode s →
      Agree (step s).2 (step u).2) := by
  have hstep {mode s} (hs : Faces (.modify op mode) s) :
      Agree (step s).2 (pairAt first second (operandAt mode s) s).2 := by
    rw [← modifyAt_eq_pair hparts]
    exact (Agree.step_modify hs).symm
  refine ⟨modifyAt_eq_pair hparts, exists_combined_iff (by rw [hparts]; rfl),
    fun mode s hs => hstep hs, ?_⟩
  intro mode mode₁ mode₂ s t u hs ht hst hfirst hu htu hsecond
  have hmodified : Agree (modifyAt first (operandAt mode s) s).2 (step t).2 := by
    rw [← hfirst]
    exact (hst.modifyAt first _).trans (Agree.step_modify ht)
  have hread := Agree.step_read hu
  rw [hsecond] at hread
  exact (hstep hs).trans (((hmodified.trans htu).readAt second _).trans hread)

/-- A pointer to itself, and behind it a rotation that adds through the pointer, a rotation of the
pointer, and an addition of the pointer. -/
def selfPointer : FlatMemory :=
  ((FlatMemory.ofBytes #[]).load 0x0010 [0x10, 0x00]).load 0x8000
    [0x63, 0x0F, 0x6E, 0x10, 0x00, 0x6D, 0x10, 0x00]

theorem get_selfPointer (addr : UInt16) :
    selfPointer.get addr =
      if addr = 0x8007 then 0x00 else if addr = 0x8006 then 0x10
      else if addr = 0x8005 then 0x6D else if addr = 0x8004 then 0x00
      else if addr = 0x8003 then 0x10 else if addr = 0x8002 then 0x6E
      else if addr = 0x8001 then 0x0F else if addr = 0x8000 then 0x63
      else if addr = 0x0011 then 0x00 else if addr = 0x0010 then 0x10
      else (FlatMemory.ofBytes #[]).get addr := by
  simp [selfPointer, FlatMemory.load, FlatMemory.get_set, eq_comm]

/-- The byte that is replaced is the low byte of the pointer that led to it. -/
theorem combined_is_pair_selfPointer :
    let s : Cpu × FlatMemory :=
      ({ Cpu.powerOn with a := 0x20, x := 0x01, p := ⟨0x25⟩, pc := 0x8000 }, selfPointer)
    ModifyOp.rra.parts? = some (.ror, .adc) ∧ Faces (.modify .rra .indirectX) s ∧
      operandAt .indirectX s = 0x0010 ∧ Agree (step s).2 (pairAt .ror .adc 0x0010 s).2 ∧
      (∃ t u, Faces (.modify .ror .absolute) t ∧ Agree s t ∧ Faces (.read .adc .absolute) u ∧
        Agree (step t).2 u ∧ Agree (step s).2 (step u).2) ∧
      (step s).2.1.a = 0xA8 := by
  have hget := get_selfPointer
  obtain ⟨m, hm⟩ : ∃ m, selfPointer = m := ⟨_, rfl⟩
  rw [hm] at hget ⊢
  have hlow : m.get 0x0010 = 0x10 := hget 0x0010
  intro s
  let t : Cpu × FlatMemory := ({ s.1 with pc := 0x8002 }, m)
  have hs : Faces (.modify .rra .indirectX) s := ⟨rfl, congrArg Instruction.decode (hget 0x8000)⟩
  have ht : Faces (.modify .ror .absolute) t := ⟨rfl, congrArg Instruction.decode (hget 0x8002)⟩
  have hpointer : operandAt .indirectX s = 0x0010 := by
    have h : operandAt .indirectX s =
        Matrix.zeroPageWord m ((m.get 0x8001).toNat + 1) := rfl
    rw [h, hget 0x8001]
    change Matrix.wordAt m 0x0010 0x0011 = 0x0010
    rw [Matrix.wordAt, hlow, hget 0x0011]
    rfl
  have hfirst : operandAt .absolute t = 0x0010 := by
    change Matrix.wordAt m 0x8003 0x8004 = 0x0010
    rw [Matrix.wordAt, hget 0x8003, hget 0x8004]
    rfl
  -- The rotation writes the pointer only, so the addition behind it is still there.
  have hrotated := (Agree.step_modify ht).memory
  rw [hfirst, modifyAt_flat] at hrotated
  obtain ⟨r, hr⟩ : ∃ r, (step t).2 = r := ⟨_, rfl⟩
  rw [hr] at hrotated
  have hkept (addr : UInt16) (h : 0x0010 ≠ addr) : r.2.get addr = m.get addr := by
    rw [hrotated, FlatMemory.get_set_ne m _ h]
  let u : Cpu × FlatMemory := ({ r.1 with pc := 0x8005, halt := none }, r.2)
  have hu : Faces (.read .adc .absolute) u :=
    ⟨rfl, congrArg Instruction.decode ((hkept 0x8005 (by decide)).trans (hget 0x8005))⟩
  have hsecond : operandAt .absolute u = 0x0010 := by
    change Matrix.wordAt r.2 0x8006 0x8007 = 0x0010
    rw [Matrix.wordAt, hkept 0x8006 (by decide), hkept 0x8007 (by decide), hget 0x8006, hget 0x8007]
    rfl
  have hparts : ModifyOp.rra.parts? = some (.ror, .adc) := rfl
  have hst : Agree s t := .moved s _ _
  have htu : Agree (step t).2 u := by
    rw [hr]
    exact .moved r _ _
  obtain ⟨-, -, hpair, hsteps⟩ := combined_is_pair hparts
  have hpair := hpair .indirectX s hs
  rw [hpointer] at hpair
  refine ⟨hparts, hs, hpointer, hpair,
    ⟨t, u, ht, hst, hu, htu, hsteps .indirectX .absolute .absolute s t u hs ht hst
      (hfirst.trans hpointer.symm) hu htu (hsecond.trans hpointer.symm)⟩, ?_⟩
  have hsum : (ModifyOp.rra.apply 0x10
      { Cpu.powerOn with a := 0x20, x := 0x01, p := ⟨0x25⟩, pc := 0x8000 }).2.a = 0xA8 := rfl
  rw [← hpair.a, ← modifyAt_eq_pair hparts, modifyAt_flat, hlow]
  exact hsum

end Famicom
