import Famicom.Proofs.Cartridge.Boards
import Mathlib.Tactic.SplitIfs

/-!
# The cycle counter of the board of disk copiers

The counter goes up with every cycle of the processor until it wraps.  Then it raises the interrupt
and stops, so there is one interrupt for each time it is started, and that stays until it is
acknowledged or the counter is started again.

`Counter` is the part of the board that this concerns.

* `Counter.iterate_tick` — a counter that was started, after any number of cycles.
* `cycleCounter?_operate` — all that one operation can do to the counter.
* `counts_cycles` — every cartridge with the board, in any state.
-/

namespace Famicom

namespace Board.Ffe

/-! ## The counter -/

/-- The counter and its interrupt, apart from the banks and screens. -/
structure Counter where
  value : UInt16
  enabled : Bool
  pending : Bool
  deriving DecidableEq

/-- The counter of the board. -/
def counter (b : Ffe) : Counter := ⟨b.irqCounter, b.irqEnabled, b.irqPending⟩

namespace Counter

/-- Count one cycle.  When the counter wraps it raises the interrupt and stops. -/
def tick (t : Counter) : Counter :=
  if t.enabled then
    ⟨t.value + 1, t.value + 1 != 0, t.pending || t.value + 1 == 0⟩
  else t

/-- The three registers of the counter. -/
inductive Register
  | acknowledge
  | low
  | high
  deriving DecidableEq

/-- The register at an address, if it is one of the counter's. -/
def register? (addr : UInt16) : Option Register :=
  if addr = 0x4501 then some .acknowledge
  else if addr = 0x4502 then some .low
  else if addr = 0x4503 then some .high
  else none

/-- Write a register.  The high byte starts the counter. -/
def put (t : Counter) : Register → UInt8 → Counter
  | .acknowledge, _ => { t with enabled := false, pending := false }
  | .low, byte => { t with value := wordOf byte (highByte t.value) }
  | .high, byte => ⟨wordOf (lowByte t.value) byte, true, false⟩

/-! ### Counting up -/

/-- The cycles that are left until the counter wraps. -/
def left (t : Counter) : Nat := 0x10000 - t.value.toNat

/-- The counter once it has wrapped. -/
def stopped : Counter := ⟨0, false, true⟩

/-- A counter that is not enabled stands still. -/
theorem tick_disabled {t : Counter} (h : t.enabled = false) : t.tick = t := by
  rw [tick, h, if_neg Bool.false_ne_true]

/-- A started counter before it wraps. -/
theorem tick_of_lt {t : Counter} (h : t.enabled = true) (hleft : 1 < t.left) :
    t.tick = { t with value := t.value + 1 } ∧ (t.value + 1).toNat = t.value.toNat + 1 := by
  have hvalue : (t.value + 1).toNat = t.value.toNat + 1 := by
    unfold left at hleft
    rw [UInt16.toNat_add, UInt16.toNat_one]
    omega
  have hzero : t.value + 1 ≠ 0 := by
    intro hzero
    rw [hzero] at hvalue
    cases hvalue
  refine ⟨?_, hvalue⟩
  rw [tick, if_pos h, bne_iff_ne.mpr hzero, beq_eq_false_iff_ne.mpr hzero, Bool.or_false, h]

/-- A started counter at its last value. -/
theorem tick_of_left {t : Counter} (h : t.enabled = true) (hleft : t.left = 1) :
    t.tick = stopped := by
  have hzero : t.value + 1 = 0 := by
    unfold left at hleft
    apply UInt16.toNat_inj.mp
    rw [UInt16.toNat_add, UInt16.toNat_one]
    have hlast : t.value.toNat = 0xFFFF := by omega
    rw [hlast]
    rfl
  rw [tick, if_pos h, hzero]
  simp [stopped]

theorem left_pos (t : Counter) : 0 < t.left := Nat.sub_pos_of_lt t.value.toNat_lt

/-- A started counter after some cycles that do not wrap it. -/
theorem iterate_tick_of_lt {t : Counter} (h : t.enabled = true) {n : Nat} (hn : n < t.left) :
    (tick^[n] t).value.toNat = t.value.toNat + n ∧ (tick^[n] t).enabled = true ∧
      (tick^[n] t).pending = t.pending := by
  induction n with
  | zero => exact ⟨rfl, h, rfl⟩
  | succ n ih =>
    obtain ⟨hvalue, henabled, hpending⟩ := ih (Nat.lt_of_succ_lt hn)
    have hleft : 1 < (tick^[n] t).left := by
      unfold left at hn ⊢
      omega
    obtain ⟨htick, hnext⟩ := tick_of_lt henabled hleft
    rw [Function.iterate_succ_apply', htick]
    exact ⟨by rw [hnext, hvalue, Nat.add_assoc], henabled, hpending⟩

/-- A counter that has wrapped does not go on. -/
theorem iterate_tick_stopped (n : Nat) : tick^[n] stopped = stopped :=
  Function.iterate_fixed (tick_disabled rfl) n

/-- **Any number of cycles.**  A started counter goes up until it wraps, and stays there. -/
theorem iterate_tick {t : Counter} (h : t.enabled = true) {n : Nat} (hn : t.left ≤ n) :
    tick^[n] t = stopped := by
  obtain ⟨before, hbefore⟩ := Nat.exists_eq_add_one_of_ne_zero (Nat.ne_of_gt t.left_pos)
  obtain ⟨after, rfl⟩ := Nat.exists_eq_add_of_le hn
  obtain ⟨hvalue, henabled, -⟩ := iterate_tick_of_lt h (n := before) (by omega)
  have hlast : (tick^[before] t).left = 1 := by
    unfold left at hbefore ⊢
    omega
  rw [Nat.add_comm, Function.iterate_add_apply, hbefore, Function.iterate_succ_apply',
    tick_of_left henabled hlast, iterate_tick_stopped]

end Counter

/-! ### The counter as part of the board -/

theorem counter_tick (b : Ffe) : b.tick.counter = b.counter.tick := by
  obtain ⟨prgBanks, chrBanks, mirroring, irqCounter, irqEnabled, irqPending⟩ := b
  cases irqEnabled <;> rfl

/-- A write to the board is a write to the counter just if it goes to one of its registers. -/
theorem counter_write (b : Ffe) (addr : UInt16) (value : UInt8) :
    (b.write addr value).counter =
      match Counter.register? addr with
      | some register => b.counter.put register value
      | none => b.counter := by
  unfold write Counter.register?
  by_cases hacknowledge : addr = 0x4501
  · subst hacknowledge
    rfl
  by_cases hlow : addr = 0x4502
  · subst hlow
    rfl
  by_cases hhigh : addr = 0x4503
  · subst hhigh
    rfl
  rw [if_neg hacknowledge, if_neg hlow, if_neg hhigh, if_neg hacknowledge, if_neg hlow,
    if_neg hhigh]
  -- All other registers hold banks and screens.
  split_ifs <;> rfl

end Board.Ffe

/-! ## Operations -/

namespace Cartridge.Operation

open Board.Ffe

/-- The register of the counter that the operation writes, and the value. -/
def counterWrite? : Operation → Option (Counter.Register × UInt8)
  | .act (.write addr value) => (Counter.register? addr).map (·, value)
  | _ => none

/-- The processor cycles that pass with the operation. -/
def cycles : Operation → Nat
  | .act (.ticks n) => n
  | _ => 0

/-- The operation neither writes a register of the counter nor puts a saved state in. -/
def Quiet (op : Operation) : Prop := op.restores = false ∧ op.counterWrite? = none

instance (op : Operation) : Decidable op.Quiet := inferInstanceAs (Decidable (_ ∧ _))

/-- The operation neither acknowledges the interrupt, nor starts the counter, nor puts a saved state
in. -/
def KeepsInterrupt (op : Operation) : Prop :=
  op.restores = false ∧ ∀ w ∈ op.counterWrite?, w.1 = .low

/-- The processor cycles that pass in a run. -/
def cyclesOf : List Operation → Nat
  | [] => 0
  | op :: rest => op.cycles + cyclesOf rest

end Cartridge.Operation

/-- The cycle counter of the board that has one. -/
def Board.cycleCounter? : Board → Option Ffe.Counter
  | ffe b => some b.counter
  | _ => none

namespace Board.Ffe

/-- The counter after an operation in which no cycle passes and that puts no saved state in. -/
def Counter.written (t : Counter) (op : Cartridge.Operation) : Counter :=
  match op.counterWrite? with
  | some (register, value) => t.put register value
  | none => t

theorem Counter.written_write (t : Counter) (addr : UInt16) (value : UInt8) :
    t.written (.act (.write addr value)) =
      match Counter.register? addr with
      | some register => t.put register value
      | none => t := by
  have hwrite : Cartridge.Operation.counterWrite? (.act (.write addr value)) =
      (register? addr).map (·, value) := rfl
  unfold written
  rw [hwrite]
  cases register? addr <;> rfl

/-- No register of the counter lies in the work RAM. -/
theorem Counter.register?_of_isWorkRam {addr : UInt16} (h : Cartridge.isWorkRam addr = true) :
    register? addr = none := by
  have hne {register : UInt16} (hregister : Cartridge.isWorkRam register = false) :
      addr ≠ register := by
    rintro rfl
    cases h.symm.trans hregister
  unfold register?
  rw [if_neg (hne (by decide)), if_neg (hne (by decide)), if_neg (hne (by decide))]

/-- The counter counts every processor cycle that the board is told of. -/
theorem cycleCounter?_ticks (b : Ffe) (n : Nat) :
    (Board.tick^[n] (.ffe b)).cycleCounter? = some (Counter.tick^[n] b.counter) := by
  induction n generalizing b with
  | zero => rfl
  | succ n ih =>
    rw [Function.iterate_succ_apply, Function.iterate_succ_apply, ← counter_tick]
    exact ih b.tick

/-- All that an operation can do to the counter. -/
theorem cycleCounter?_operated (b : Ffe) (op : Cartridge.Operation) :
    ((Board.ffe b).operated op).cycleCounter? =
      some (Counter.tick^[op.cycles] (b.counter.written op)) := by
  cases op with
  | act a =>
    cases a with
    | write addr value =>
      show (if Cartridge.isWorkRam addr then Board.ffe b
        else .ffe (b.write addr value)).cycleCounter? = some (b.counter.written _)
      rw [Counter.written_write]
      by_cases hram : Cartridge.isWorkRam addr = true
      · rw [if_pos hram, Counter.register?_of_isWorkRam hram]
        rfl
      · rw [if_neg hram, ← counter_write]
        rfl
    | ticks n => exact b.cycleCounter?_ticks n
    | _ => rfl
  | _ => rfl

end Board.Ffe

namespace Cartridge

open Board.Ffe Operation

/-- The cycle counter of a cartridge that has one. -/
def cycleCounter? (c : Cartridge) : Option Counter := c.board.cycleCounter?

theorem cycleCounter?_eq_some_iff {c : Cartridge} {t : Counter} :
    c.cycleCounter? = some t ↔ ∃ b, c.board = .ffe b ∧ b.counter = t := by
  unfold cycleCounter? Board.cycleCounter?
  cases hboard : c.board with
  | ffe b => simp
  | _ => simp

/-- The interrupt of the board is the one of its counter. -/
theorem irqPending_of_cycleCounter? {c : Cartridge} {t : Counter} (h : c.cycleCounter? = some t) :
    c.board.irqPending = t.pending := by
  obtain ⟨b, hboard, rfl⟩ := cycleCounter?_eq_some_iff.mp h
  rw [hboard]
  rfl

/-- **One operation.**  It writes a register of the counter or has it count. -/
theorem cycleCounter?_operate {c : Cartridge} {t : Counter} (h : c.cycleCounter? = some t)
    (op : Operation) (hop : op.restores = false) :
    (c.operate op).2.cycleCounter? = some (Counter.tick^[op.cycles] (t.written op)) := by
  obtain ⟨b, hboard, rfl⟩ := cycleCounter?_eq_some_iff.mp h
  rw [cycleCounter?, c.board_operate hop, hboard]
  exact b.cycleCounter?_operated op

/-- A run that does not write the counter has it count the cycles that pass. -/
theorem cycleCounter?_run {ops : List Operation} (hops : ∀ op ∈ ops, op.Quiet) {c : Cartridge}
    {t : Counter} (h : c.cycleCounter? = some t) :
    (c.run ops).2.cycleCounter? = some (Counter.tick^[cyclesOf ops] t) := by
  induction ops generalizing c t with
  | nil => exact h
  | cons op rest ih =>
    obtain ⟨⟨hrestores, hwrite⟩, hrest⟩ := List.forall_mem_cons.mp hops
    have hstep := cycleCounter?_operate h op hrestores
    rw [Counter.written, hwrite] at hstep
    refine (ih hrest hstep).trans ?_
    rw [← Function.iterate_add_apply, Nat.add_comm]
    rfl

/-- The counter that has raised its interrupt and stopped, whatever its value. -/
theorem stopped_run {ops : List Operation} (hops : ∀ op ∈ ops, op.KeepsInterrupt) {c : Cartridge}
    {t : Counter} (h : c.cycleCounter? = some t) (henabled : t.enabled = false)
    (hpending : t.pending = true) :
    ∃ u, (c.run ops).2.cycleCounter? = some u ∧ u.enabled = false ∧ u.pending = true := by
  induction ops generalizing c t with
  | nil => exact ⟨t, h, henabled, hpending⟩
  | cons op rest ih =>
    obtain ⟨⟨hrestores, hlow⟩, hrest⟩ := List.forall_mem_cons.mp hops
    have hstep := cycleCounter?_operate h op hrestores
    -- of the registers only the low byte may be written, which touches neither flag
    have hwritten : (t.written op).enabled = false ∧ (t.written op).pending = true := by
      unfold Counter.written
      split
      · next register value hwrite =>
        obtain rfl : register = .low := hlow _ hwrite
        exact ⟨henabled, hpending⟩
      · exact ⟨henabled, hpending⟩
    rw [Function.iterate_fixed (Counter.tick_disabled hwritten.1)] at hstep
    exact ih hrest hstep hwritten.1 hwritten.2

/-! ## Starting the counter -/

/-- Write a value to the counter, its low byte first. -/
def Operation.startAt (start : UInt16) (between : List Operation) : List Operation :=
  .act (.write 0x4502 (lowByte start)) :: between ++ [.act (.write 0x4503 (highByte start))]

/-- The counter has been started. -/
theorem cycleCounter?_startAt {c : Cartridge} {t : Counter} (h : c.cycleCounter? = some t)
    (start : UInt16) {between : List Operation} (hquiet : ∀ op ∈ between, op.Quiet)
    (hcycles : cyclesOf between = 0) :
    (c.run (startAt start between)).2.cycleCounter? = some ⟨start, true, false⟩ := by
  have hlow := cycleCounter?_operate h (.act (.write 0x4502 (lowByte start))) rfl
  have hbetween := cycleCounter?_run hquiet hlow
  rw [hcycles] at hbetween
  have hhigh := cycleCounter?_operate hbetween (.act (.write 0x4503 (highByte start))) rfl
  rw [startAt, run_append]
  refine hhigh.trans (congrArg some ?_)
  show (⟨wordOf (lowByte (wordOf (lowByte start) _)) (highByte start), true, false⟩ : Counter) = _
  rw [lowByte_wordOf, wordOf_lowByte_highByte]

/-- What a cartridge does whose counter has just been started at a value. -/
structure CountsCycles (c : Cartridge) (start : UInt16) : Prop where
  /-- The interrupt comes with the cycle that wraps the counter, and stays. -/
  pending : ∀ later : List Operation, (∀ op ∈ later, op.Quiet) →
    (c.run later).2.board.irqPending = decide (0x10000 - start.toNat ≤ cyclesOf later)
  /-- Until then the counter has gone up by the cycles that passed. -/
  counting : ∀ later : List Operation, (∀ op ∈ later, op.Quiet) →
    cyclesOf later < 0x10000 - start.toNat →
    ∃ u, (c.run later).2.cycleCounter? = some u ∧
      u.value.toNat = start.toNat + cyclesOf later ∧ u.enabled = true
  /-- From then on it stands at zero. -/
  stopped : ∀ later : List Operation, (∀ op ∈ later, op.Quiet) →
    0x10000 - start.toNat ≤ cyclesOf later →
    (c.run later).2.cycleCounter? = some ⟨0, false, true⟩
  /-- Nothing but an acknowledgement or another start takes the interrupt back. -/
  lasting : ∀ later further : List Operation, (∀ op ∈ later, op.Quiet) →
    0x10000 - start.toNat ≤ cyclesOf later → (∀ op ∈ further, op.KeepsInterrupt) →
    (c.run (later ++ further)).2.board.irqPending = true
  /-- Each of these does, whatever was done before. -/
  cleared : ∀ (ops : List Operation) (addr : UInt16) (value : UInt8),
    addr = 0x4501 ∨ addr = 0x4503 →
    (c.run (ops ++ [.act (.write addr value)])).2.board.irqPending = false

/-- No operation changes what kind of board there is. -/
theorem cycleCounter?_isSome {c : Cartridge} {t : Counter} (h : c.cycleCounter? = some t)
    (ops : List Operation) : ∃ u, (c.run ops).2.cycleCounter? = some u := by
  obtain ⟨b, hboard, -⟩ := cycleCounter?_eq_some_iff.mp h
  have hkin := (kin_run ops c).registers (.ffe b)
  unfold cycleCounter?
  rw [hboard] at hkin
  cases hran : (c.run ops).2.board with
  | ffe b' => exact ⟨b'.counter, rfl⟩
  | _ =>
    rw [hran] at hkin
    cases hkin

/-- **The cycle counter.**  Any cartridge with the board, in any state, whose counter is started at
any value: from then on, whatever else is done to its banks, screens and memory, the counter wraps
when the cycles that are left have passed, and raises an interrupt that stays. -/
theorem counts_cycles {c : Cartridge} {b : Board.Ffe} (h : c.board = .ffe b) (start : UInt16)
    (between : List Operation) (hquiet : ∀ op ∈ between, op.Quiet)
    (hcycles : cyclesOf between = 0) :
    CountsCycles (c.run (startAt start between)).2 start := by
  have hcounter : c.cycleCounter? = some b.counter :=
    cycleCounter?_eq_some_iff.mpr ⟨b, h, rfl⟩
  have hstart := cycleCounter?_startAt hcounter start hquiet hcycles
  -- from here on only the state of the counter matters, not how it came about
  generalize (c.run (startAt start between)).2 = d at hstart ⊢
  have hstopped (later : List Operation) (hlater : ∀ op ∈ later, op.Quiet)
      (hleft : 0x10000 - start.toNat ≤ cyclesOf later) :
      (d.run later).2.cycleCounter? = some Counter.stopped := by
    rw [cycleCounter?_run hlater hstart, Counter.iterate_tick rfl hleft]
  constructor
  case pending =>
    intro later hlater
    by_cases hleft : 0x10000 - start.toNat ≤ cyclesOf later
    · rw [irqPending_of_cycleCounter? (hstopped later hlater hleft), decide_eq_true hleft]
      rfl
    · have hcounted := Counter.iterate_tick_of_lt (t := ⟨start, true, false⟩) rfl
        (Nat.lt_of_not_le hleft)
      rw [irqPending_of_cycleCounter? (cycleCounter?_run hlater hstart), decide_eq_false hleft]
      exact hcounted.2.2
  case counting =>
    intro later hlater hleft
    obtain ⟨hvalue, henabled, -⟩ := Counter.iterate_tick_of_lt (t := ⟨start, true, false⟩) rfl hleft
    exact ⟨_, cycleCounter?_run hlater hstart, hvalue, henabled⟩
  case stopped =>
    exact hstopped
  case lasting =>
    intro later further hlater hleft hfurther
    obtain ⟨u, hu, -, hpending⟩ := stopped_run hfurther (hstopped later hlater hleft) rfl rfl
    rw [run_append, irqPending_of_cycleCounter? hu, hpending]
  case cleared =>
    intro ops addr value haddr
    obtain ⟨u, hu⟩ := cycleCounter?_isSome hstart ops
    have hwrite := cycleCounter?_operate hu (.act (.write addr value)) rfl
    rw [run_append]
    refine (irqPending_of_cycleCounter? hwrite).trans ?_
    rw [Counter.written_write]
    rcases haddr with rfl | rfl <;> rfl

/-- Two cycles are left: with bank and work RAM writes around it, the first raises nothing, and
after many more the interrupt is still there, until it is acknowledged. -/
theorem counts_cycles_copier :
    ∃ c, ofImage copier = .ok c ∧
      let d := (c.run (startAt 0xFFFE [.act (.write 0x42FF 0x10)])).2
      let early := [.act (.write 0x4504 3), .act (.ticks 1), .act (.write 0x6000 7)]
      let late := [.act (.ticks 1), .act (.write 0x4510 5), .act (.ticks 70000)]
      (d.run early).2.board.irqPending = false ∧ (d.run late).2.board.irqPending = true ∧
      (d.run (late ++ [.act (.write 0x4501 0)])).2.board.irqPending = false := by
  have hmade : ∃ c, ofImage copier = .ok c := ⟨_, dif_pos (by decide)⟩
  obtain ⟨c, hc⟩ := hmade
  refine ⟨c, hc, ?_⟩
  intro d early late
  have hboard : c.board = .ffe (.powerOn copier) := board_ofImage hc
  have hcounts := counts_cycles hboard 0xFFFE [.act (.write 0x42FF 0x10)] (by decide) rfl
  refine ⟨?_, ?_, hcounts.cleared late 0x4501 0 (.inl rfl)⟩
  · exact (hcounts.pending early (by decide)).trans (by decide)
  · exact (hcounts.pending late (by decide)).trans (by decide)

end Cartridge

end Famicom
