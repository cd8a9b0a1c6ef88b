import Famicom.Proofs.Cpu.Within

/-!
# When the processor jams

Twelve opcodes jam the processor.  A jam is recorded with its opcode and its address; the opcode has
been read by then, and nothing else happens, neither to the other registers nor on the bus.  From
there on the processor answers every step and every interrupt with no cycles, and leaves registers
and bus alone until it is reset.

* `jammed?_decode` — the opcodes of the jams.
* `step_jams`, `step_runs` — a step on one of them, and on any other.
* `drive_jammed` — driving a jammed processor on.
* `jams_exactly` — all of it for every bus.
-/

namespace Famicom

/-! ## The opcodes -/

/-- The opcodes that jam the processor. -/
def jams : List UInt8 :=
  [0x02, 0x12, 0x22, 0x32, 0x42, 0x52, 0x62, 0x72, 0x92, 0xB2, 0xD2, 0xF2]

/-- The opcode that an instruction jams the processor with. -/
def Instruction.jammed? : Instruction → Option UInt8
  | .jam opcode => some opcode
  | _ => none

/-- The blocks of opcodes decode to a jam just for those twelve, and each jams with its own. -/
theorem jammed?_decode (opcode : UInt8) :
    (Instruction.decode opcode).jammed? = if opcode ∈ jams then some opcode else none := by
  revert opcode
  decide +kernel

theorem Instruction.eq_jam {i : Instruction} {opcode : UInt8} (h : i.jammed? = some opcode) :
    i = .jam opcode := by
  cases i with
  | jam jammed => exact congrArg _ (Option.some.inj h)
  | _ => cases h

theorem decode_of_mem_jams {opcode : UInt8} (h : opcode ∈ jams) :
    Instruction.decode opcode = .jam opcode :=
  Instruction.eq_jam ((jammed?_decode opcode).trans (if_pos h))

/-- No opcode but the twelve is decoded as a jam. -/
theorem decode_ne_jam {opcode : UInt8} (h : opcode ∉ jams) (jammed : UInt8) :
    Instruction.decode opcode ≠ .jam jammed := by
  intro hjam
  have hnone := (jammed?_decode opcode).trans (if_neg h)
  rw [hjam] at hnone
  cases hnone

theorem cycles_of_mem_jams {opcode : UInt8} (h : opcode ∈ jams) : Timing.cycles opcode = 2 := by
  revert opcode
  decide +kernel

/-! ## Steps -/

/-- The processor after a jam on `opcode`, fetched where it stands. -/
def Cpu.jammedOn (c : Cpu) (opcode : UInt8) : Cpu :=
  { c with halt := some ⟨opcode, c.pc⟩, totalCycles := c.totalCycles + 2 }

namespace Exec

variable {σ : Type} [AddressSpace σ]

/-- A jam has read its opcode and does nothing else. -/
theorem step_jams {c : Cpu} {m : σ} (running : c.halt = none)
    (h : (AddressSpace.read c.pc m).1 ∈ jams) :
    step (c, m) =
      (2, c.jammedOn (AddressSpace.read c.pc m).1, (AddressSpace.read c.pc m).2) := by
  have hback : c.pc + 1 - 1 = c.pc := UInt16.add_sub_cancel ..
  have hjam (opcode : UInt8) (m : σ) :
      execute (.jam opcode) ({ c with pc := c.pc + 1 }, m) =
        ((), { c with halt := some ⟨opcode, c.pc⟩ }, m) := by
    simp only [execute, update, hback]
  rw [step_of_running running]
  simp only [decode_of_mem_jams h, cycles_of_mem_jams h, hjam]
  rfl

/-- No other instruction touches the jam record. -/
theorem step_runs {c : Cpu} {m : σ} (running : c.halt = none)
    (h : (AddressSpace.read c.pc m).1 ∉ jams) : (step (c, m)).2.1.halt = none := by
  have hR : Roaming fun c d => d.halt = c.halt := .of_records And.left
  have heffect : (Instruction.decode (AddressSpace.read c.pc m).1).Effect
      fun c d => d.halt = c.halt :=
    Instruction.effect_of_records And.left fun jammed hjam => absurd hjam (decode_ne_jam h jammed)
  rw [step_of_running running]
  exact (Within.execute hR heffect ({ c with pc := c.pc + 1 }, (AddressSpace.read c.pc m).2)).trans
    running

/-! ## The jammed processor -/

/-- What drives a processor on. -/
inductive Drive
  | step
  | nmi
  | irq
  deriving DecidableEq, Repr

/-- Drive the processor on, and return the cycles that it took. -/
def Drive.exec : Drive → Exec σ Nat
  | .step => Exec.step
  | .nmi => Exec.nmi
  | .irq => Exec.irq

theorem Drive.exec_jammed (d : Drive) {s : Cpu × σ} (jammed : s.1.halt.isSome) :
    d.exec s = (0, s) := by
  cases d with
  | step => exact step_of_jammed jammed
  | nmi => exact congrFun (if_pos jammed) s
  | irq =>
    have hblocked : (s.1.halt.isSome || s.1.p.test .interruptDisable) = true := by
      rw [jammed, Bool.true_or]
    exact congrFun (if_pos hblocked) s

/-- Each of any number of drives takes no cycle and finds and leaves the processor as it was. -/
theorem drive_jammed (ds : List Drive) {s : Cpu × σ} (jammed : s.1.halt.isSome) :
    (ds.mapM Drive.exec : Exec σ (List Nat)) s = (List.replicate ds.length 0, s) := by
  induction ds with
  | nil => rfl
  | cons d rest ih =>
    have hcons : ((d :: rest).mapM Drive.exec : Exec σ (List Nat)) =
        (do return (← d.exec) :: (← rest.mapM Drive.exec)) := List.mapM_cons
    have hrest : ((d :: rest).mapM Drive.exec : Exec σ (List Nat)) s =
        ((d.exec s).1 :: ((rest.mapM Drive.exec : Exec σ (List Nat)) (d.exec s).2).1,
          ((rest.mapM Drive.exec : Exec σ (List Nat)) (d.exec s).2).2) := by
      rw [hcons]
      rfl
    rw [hrest, d.exec_jammed jammed, ih]
    rfl

end Exec

open Exec

/-- **When the processor jams, and what follows.**  On every bus a step of a running processor jams
it exactly if the opcode it fetches is one of the twelve.  The jam is recorded with the opcode and
its address, where the program counter stays; it costs two cycles, no other register changes, and
the bus has seen the opcode being read and nothing else.  A jammed processor, driven on however
often, takes no cycles, changes nothing and makes no access, until a reset ends the jam. -/
theorem jams_exactly {σ : Type} [AddressSpace σ] :
    (∀ (c : Cpu) (m : σ), c.halt = none →
      let (opcode, m') := AddressSpace.read c.pc m
      ((step (c, m)).2.1.halt.isSome ↔ opcode ∈ jams) ∧
        (opcode ∈ jams → step (c, m) = (2, c.jammedOn opcode, m'))) ∧
    (∀ (c : Cpu) (r : Recorder σ), c.halt = none →
      let (opcode, m') := AddressSpace.read c.pc r.space
      opcode ∈ jams →
        (step (c, r)).2.2.space = m' ∧
          (step (c, r)).2.2.accesses = r.accesses ++ [.read c.pc opcode]) ∧
    (∀ s : Cpu × σ, s.1.halt.isSome →
      (∀ ds : List Drive,
        (ds.mapM Drive.exec : Exec σ (List Nat)) s = (List.replicate ds.length 0, s)) ∧
      (∀ (ds : List Drive) (r : Recorder σ),
        (ds.mapM Drive.exec : Exec (Recorder σ) (List Nat)) (s.1, r) =
          (List.replicate ds.length 0, s.1, r)) ∧
      (reset s).2.1.halt = none) := by
  refine ⟨?_, ?_, ?_⟩
  · intro c m running
    refine ⟨?_, step_jams running⟩
    by_cases h : (AddressSpace.read c.pc m).1 ∈ jams
    · have hjammed : (step (c, m)).2.1.halt.isSome := by
        rw [step_jams running h]
        rfl
      exact iff_of_true hjammed h
    · have hruns : ¬(step (c, m)).2.1.halt.isSome := by
        rw [step_runs running h]
        exact Bool.false_ne_true
      exact iff_of_false hruns h
  · -- the recorder is a bus too, so a jam on it is a jam on what it records
    intro c r running h
    have hjam : step (c, r) = _ := step_jams running h
    rw [hjam]
    exact ⟨rfl, List.reverse_cons⟩
  · intro s jammed
    exact ⟨fun ds => drive_jammed ds jammed,
      fun ds r => drive_jammed (σ := Recorder σ) ds (s := (s.1, r)) jammed, rfl⟩

end Famicom
