import Famicom.Proofs.Cartridge.Boards

/-!
# The scanline counter of MMC3

The counter is clocked by scanlines and by fetches, in any mixture, and what it does depends on the
number of clocks alone.  It counts down what is in it; from the next reload on it goes round from
the latch to zero, which takes one clock more than the latch says.  So interrupts come at the
multiples of that period, counted from the last request to reload.

`Timer` is the part of the registers that this concerns.

* `timer?_operate` — all that one operation can do to the timer.
* `Timer.counterAfter_clock` — one clock, in terms of the value after any number of clocks.
* `counts_scanlines` — every MMC3 cartridge, in any state.
-/

namespace Famicom

namespace Board.Mmc3

/-! ## The timer -/

/-- The scanline counter and its interrupt, apart from the banks and the filter on address
line 12. -/
structure Timer where
  latch : UInt8
  counter : UInt8
  reload : Bool
  enabled : Bool
  pending : Bool
  deriving DecidableEq

namespace Timer

/-- Reload at zero or on request, else count down; at zero the interrupt is raised if enabled. -/
def clock (t : Timer) : Timer :=
  let counter := if t.counter = 0 || t.reload then t.latch else t.counter - 1
  { t with counter, reload := false, pending := t.pending || (counter == 0 && t.enabled) }

/-- The four registers behind the upper half of the ROM window. -/
inductive Register
  | latch
  | reload
  | acknowledge
  | enable
  deriving DecidableEq

/-- The register that an address selects, if it is one of the timer's. -/
def register? (addr : UInt16) : Option Register :=
  let even := addr &&& 1 == 0
  if addr < 0xC000 then none
  else if addr < 0xE000 then some (if even then .latch else .reload)
  else some (if even then .acknowledge else .enable)

/-- What is counted depends on the register, and not only what comes of it. -/
def Register.tunes : Register → Bool
  | .latch | .reload => true
  | .acknowledge | .enable => false

/-- Write a register.  Only the latch cares about the value. -/
def put (t : Timer) : Register → UInt8 → Timer
  | .latch, value => { t with latch := value }
  | .reload, _ => { t with counter := 0, reload := true }
  | .acknowledge, _ => { t with enabled := false, pending := false }
  | .enable, _ => { t with enabled := true }

end Timer

end Board.Mmc3

namespace Cartridge.Operation

open Board.Mmc3

/-- The register of the timer that the operation writes, and the value. -/
def timerWrite? : Operation → Option (Timer.Register × UInt8)
  | .act (.write addr value) => (Timer.register? addr).map (·, value)
  | _ => none

/-- The operation puts a saved state in, writes the latch or asks for a reload. -/
def tunes (op : Operation) : Bool := op.restores || op.timerWrite?.any fun w => w.1.tunes

theorem restores_of_tunes {op : Operation} (h : op.tunes = false) :
    op.restores = false := (Bool.or_eq_false_iff.mp h).1

/-- What writes none of the registers tunes nothing. -/
theorem tunes_of_none {op : Operation} (h : op.restores = false ∧ op.timerWrite? = none) :
    op.tunes = false := by
  rw [tunes, h.1, h.2]
  rfl

end Cartridge.Operation

namespace Board.Mmc3

/-- The timer after an operation that neither clocks it nor puts a saved state in. -/
def Timer.written (t : Timer) (op : Cartridge.Operation) : Timer :=
  match op.timerWrite? with
  | some (register, value) => t.put register value
  | none => t

theorem Timer.written_write (t : Timer) (addr : UInt16) (value : UInt8) :
    t.written (.act (.write addr value)) =
      match Timer.register? addr with
      | some register => t.put register value
      | none => t := by
  have hwrite : Cartridge.Operation.timerWrite? (.act (.write addr value)) =
      (register? addr).map (·, value) := rfl
  unfold written
  rw [hwrite]
  cases register? addr <;> rfl

/-- Address line 12 is low at a fetch. -/
def lineLow (addr : UInt16) : Bool := addr &&& 0x1000 == 0

namespace Registers

/-- The timer among the registers. -/
def timer (r : Registers) : Timer :=
  ⟨r.irqLatch, r.irqCounter, r.irqReload, r.irqEnabled, r.irqPending⟩

/-- A fetch gets through the filter on address line 12. -/
def accepts (r : Registers) (addr : UInt16) : Bool :=
  !lineLow addr && !r.lastA12 && filterReads ≤ r.a12LowReads

/-- An operation clocks the counter. -/
def clockedBy (r : Registers) : Cartridge.Operation → Bool
  | .act (.observe addr) => r.accepts addr
  | .act .clockScanline => true
  | _ => false

/-- The registers after an operation that puts no saved state in. -/
def operated (r : Registers) : Cartridge.Operation → Registers
  | .act (.write addr value) => if addr < Image.romStart then r else r.write addr value
  | .act (.observe addr) => r.observe addr
  | .act .clockScanline => r.clockCounter
  | _ => r

/-- A fetch with the line low is counted, up to what a byte holds. -/
theorem observe_low (r : Registers) {addr : UInt16} (h : lineLow addr = true) :
    r.observe addr = { r with
      lastA12 := false
      a12LowReads := if r.a12LowReads = 0xFF then 0xFF else r.a12LowReads + 1 } :=
  if_pos (eq_of_beq h)

/-- A fetch with the line high clocks the counter if it is accepted, and ends the low run. -/
theorem observe_high (r : Registers) {addr : UInt16} (h : lineLow addr = false) :
    r.observe addr =
      { (if r.accepts addr then r.clockCounter else r) with
        lastA12 := true
        a12LowReads := 0 } := by
  have hbit : ¬addr &&& 0x1000 = 0 := ne_of_beq_false h
  unfold observe accepts
  rw [if_neg hbit, h]
  rfl

/-- A fetch clocks the timer or leaves it alone. -/
theorem timer_observe (r : Registers) (addr : UInt16) :
    (r.observe addr).timer = if r.accepts addr then r.timer.clock else r.timer := by
  by_cases hline : lineLow addr
  · have haccepts : r.accepts addr = false := by rw [accepts, hline]; rfl
    rw [observe_low r hline, haccepts]
    rfl
  · rw [observe_high r (Bool.not_eq_true _ ▸ hline)]
    split <;> rfl

/-- Registers in the lower half of the ROM window are not the timer's. -/
theorem timer_write (r : Registers) (addr : UInt16) (value : UInt8) :
    (r.write addr value).timer =
      match Timer.register? addr with
      | some register => r.timer.put register value
      | none => r.timer := by
  by_cases hC : addr < 0xC000
  · have hnone : Timer.register? addr = none := if_pos hC
    rw [hnone]
    unfold write
    by_cases hA : addr < 0xA000
    · rw [if_pos hA]
      split <;> rfl
    · rw [if_neg hA, if_pos hC]
      split <;> rfl
  have hA : ¬addr < 0xA000 := fun hlt => hC (UInt16.lt_trans hlt (by decide))
  unfold write Timer.register?
  rw [if_neg hA, if_neg hC, if_neg hC]
  by_cases hE : addr < 0xE000
  · rw [if_pos hE, if_pos hE]
    split <;> rfl
  · rw [if_neg hE, if_neg hE]
    split <;> rfl

/-- All that an operation can do to the timer. -/
theorem timer_operated (r : Registers) (op : Cartridge.Operation) :
    (r.operated op).timer = if r.clockedBy op then r.timer.clock else r.timer.written op := by
  cases op with
  | act a =>
    cases a with
    | write addr value =>
      show (if addr < Image.romStart then r else r.write addr value).timer = r.timer.written _
      rw [Timer.written_write, ← timer_write]
      split
      · next hlow =>
        have hnone : Timer.register? addr = none := if_pos (UInt16.lt_trans hlow (by decide))
        rw [timer_write, hnone]
      · rfl
    | observe addr => exact r.timer_observe addr
    | _ => rfl
  | _ => rfl

end Registers

/-- What an operation does to an MMC3 board it does to its registers. -/
theorem operated_eq (b : Mmc3) (op : Cartridge.Operation) :
    (Board.mmc3 b).operated op = .mmc3 { b with regs := b.regs.operated op } := by
  cases op with
  | act a =>
    cases a with
    | write addr value =>
      show _ = Board.mmc3 { b with
        regs := if addr < Image.romStart then b.regs else b.regs.write addr value }
      rw [Board.operated_write_eq (by simp)]
      split <;> rfl
    | ticks cycles => exact Function.iterate_fixed rfl cycles
    | _ => rfl
  | _ => rfl

/-! ## Counting down and round -/

namespace Timer

/-- The clocks that only count down before the counter is reloaded. -/
def untilReload (t : Timer) : Nat := if t.reload then 0 else t.counter.toNat

/-- The counter after a number of clocks. -/
def counterAfter (t : Timer) (k : Nat) : Nat :=
  if k ≤ t.untilReload then t.counter.toNat - k
  else t.latch.toNat - (k - t.untilReload - 1) % (t.latch.toNat + 1)

/-- Without a clock the counter is what it is. -/
theorem counterAfter_zero (t : Timer) : t.counterAfter 0 = t.counter.toNat :=
  if_pos (Nat.zero_le _)

/-- A clock raises the interrupt when it leaves zero in the counter. -/
theorem pending_clock (t : Timer) :
    t.clock.pending = true ↔ t.pending = true ∨ t.enabled = true ∧ t.clock.counter = 0 := by
  have hpending : t.clock.pending = (t.pending || (t.clock.counter == 0 && t.enabled)) := rfl
  rw [hpending, Bool.or_eq_true, Bool.and_eq_true, beq_iff_eq, and_comm]

/-- A counter that has clocks left to count was not asked to reload. -/
theorem counter_of_untilReload {t : Timer} (h : t.untilReload ≠ 0) :
    t.reload = false ∧ t.counter.toNat = t.untilReload := by
  unfold untilReload at h ⊢
  split at h
  · exact absurd rfl h
  · next hrequest => exact ⟨Bool.not_eq_true _ ▸ hrequest, (if_neg hrequest).symm⟩

/-- A clock takes a request to reload back. -/
theorem untilReload_clock (t : Timer) : t.clock.untilReload = t.clock.counter.toNat :=
  if_neg Bool.false_ne_true

/-- A clock reloads the counter or counts down. -/
theorem counter_clock (t : Timer) :
    t.clock.counter.toNat = if t.untilReload = 0 then t.latch.toNat else t.untilReload - 1 := by
  by_cases hwait : t.untilReload = 0
  · have hreload : (t.counter = 0 || t.reload) = true := by
      unfold untilReload at hwait
      split at hwait
      · next hrequest => exact Bool.or_eq_true_iff.mpr (.inr hrequest)
      · exact Bool.or_eq_true_iff.mpr (.inl (decide_eq_true (UInt8.toNat_inj.mp hwait)))
    have hclock : t.clock.counter = t.latch := if_pos hreload
    rw [if_pos hwait, hclock]
  · obtain ⟨hrequest, hcounter⟩ := counter_of_untilReload hwait
    have hone : (1 : UInt8) ≤ t.counter :=
      UInt8.le_iff_toNat_le.mpr (hcounter ▸ Nat.one_le_iff_ne_zero.mpr hwait)
    have hpos : t.counter ≠ 0 := by
      rintro hzero
      exact hwait (hcounter.symm.trans (congrArg UInt8.toNat hzero))
    have hclock : t.clock.counter = t.counter - 1 := by
      refine if_neg ?_
      rw [decide_eq_false hpos, hrequest]
      exact Bool.false_ne_true
    rw [if_neg hwait, hclock, UInt8.toNat_sub_of_le _ _ hone, hcounter]
    rfl

/-- **One clock.**  What is left to count after a clock is what was to come after it before. -/
theorem counterAfter_clock (t : Timer) (k : Nat) :
    t.clock.counterAfter k = t.counterAfter (k + 1) := by
  have hlatch : t.clock.latch = t.latch := rfl
  unfold counterAfter
  rw [untilReload_clock, counter_clock, hlatch]
  by_cases hwait : t.untilReload = 0
  · rw [if_pos hwait, hwait, if_neg (Nat.not_succ_le_zero k), Nat.sub_zero, Nat.add_sub_cancel]
    by_cases hk : k ≤ t.latch.toNat
    · rw [if_pos hk, Nat.mod_eq_of_lt (Nat.lt_succ_of_le hk)]
    · -- The first round is over, and its clocks do not count towards the next.
      obtain ⟨j, rfl⟩ := Nat.exists_eq_add_of_le (Nat.lt_of_not_le hk)
      have hrest : t.latch.toNat.succ + j - t.latch.toNat - 1 = j := by omega
      rw [if_neg hk, hrest, Nat.succ_eq_add_one, Nat.add_mod_left]
  · rw [if_neg hwait, (counter_of_untilReload hwait).2]
    by_cases hk : k + 1 ≤ t.untilReload
    · rw [if_pos (Nat.le_sub_one_of_lt hk), if_pos hk, Nat.sub_sub, Nat.add_comm 1 k]
    · have hround : k - (t.untilReload - 1) - 1 = k + 1 - t.untilReload - 1 := by omega
      have hk' : ¬k ≤ t.untilReload - 1 := by omega
      rw [if_neg hk', if_neg hk, hround]

/-- After a request to reload, the counter is at zero at the multiples of its period. -/
theorem counterAfter_eq_zero_iff {t : Timer} (h : t.reload = true) (j : Nat) :
    t.counterAfter (j + 1) = 0 ↔ t.latch.toNat + 1 ∣ j + 1 := by
  have hwait : t.untilReload = 0 := if_pos h
  unfold counterAfter
  rw [hwait, if_neg (Nat.not_succ_le_zero j), Nat.sub_zero, Nat.add_sub_cancel]
  generalize t.latch.toNat = n
  have hlt : j % (n + 1) < n + 1 := Nat.mod_lt j n.succ_pos
  have hsplit : j + 1 = (n + 1) * (j / (n + 1)) + (j % (n + 1) + 1) := by
    rw [← Nat.add_assoc, Nat.div_add_mod]
  rw [hsplit, Nat.dvd_add_right (Nat.dvd_mul_right ..)]
  constructor
  · intro hzero
    have hlast : n + 1 = j % (n + 1) + 1 := by omega
    exact ⟨1, hlast.symm.trans (Nat.mul_one _).symm⟩
  · intro hdvd
    have hle := Nat.le_of_dvd (Nat.succ_pos _) hdvd
    omega

/-- One of the next so many clocks leaves zero in the counter. -/
def ReachesZero (t : Timer) (k : Nat) : Prop := ∃ j < k, t.counterAfter (j + 1) = 0

theorem not_reachesZero_zero (t : Timer) : ¬t.ReachesZero 0 :=
  fun ⟨j, hj, _⟩ => Nat.not_lt_zero j hj

/-- The first of the clocks leaves zero, or one of the others does. -/
theorem reachesZero_succ (t : Timer) (k : Nat) :
    t.ReachesZero (k + 1) ↔ t.clock.counter = 0 ∨ t.clock.ReachesZero k := by
  have hfirst : t.counterAfter 1 = 0 ↔ t.clock.counter = 0 := by
    rw [← t.counterAfter_clock 0, counterAfter_zero]
    exact UInt8.toNat_inj (b := 0)
  constructor
  · rintro ⟨j, hj, hzero⟩
    cases j with
    | zero => exact .inl (hfirst.mp hzero)
    | succ j =>
      exact .inr ⟨j, Nat.lt_of_succ_lt_succ hj, (t.counterAfter_clock (j + 1)).trans hzero⟩
  · rintro (hzero | ⟨j, hj, hzero⟩)
    · exact ⟨0, k.succ_pos, hfirst.mpr hzero⟩
    · exact ⟨j + 1, Nat.succ_lt_succ hj, (t.counterAfter_clock (j + 1)).symm.trans hzero⟩

/-! ### Writes -/

/-- Writes that tune nothing change only the interrupt. -/
theorem counterAfter_written (t : Timer) {op : Cartridge.Operation} (h : op.tunes = false)
    (k : Nat) :
    (t.written op).latch = t.latch ∧ (t.written op).counterAfter k = t.counterAfter k := by
  have htunes := (Bool.or_eq_false_iff.mp h).2
  unfold written
  split
  · next register value hwrite =>
    rw [hwrite] at htunes
    cases register with
    | latch => cases htunes
    | reload => cases htunes
    | acknowledge => exact ⟨rfl, rfl⟩
    | enable => exact ⟨rfl, rfl⟩
  · exact ⟨rfl, rfl⟩

/-- Only a write of its own register enables the interrupt. -/
theorem disabled_written {t : Timer} (h : t.enabled = false) {op : Cartridge.Operation}
    (hop : ∀ value, op.timerWrite? ≠ some (.enable, value)) :
    (t.written op).enabled = false ∧ ((t.written op).pending = true → t.pending = true) := by
  unfold written
  split
  · next register value hwrite =>
    cases register with
    | latch => exact ⟨h, id⟩
    | reload => exact ⟨h, id⟩
    | acknowledge => exact ⟨rfl, fun hraised => nomatch hraised⟩
    | enable => exact absurd hwrite (hop value)
  · exact ⟨h, id⟩

/-- No write takes a request to reload back. -/
theorem reload_written {t : Timer} (h : t.reload = true) (op : Cartridge.Operation) :
    (t.written op).reload = true := by
  unfold written
  split
  · next register _ _ => cases register <;> first | rfl | exact h
  · exact h

end Timer

end Board.Mmc3

/-! ## Operations -/

/-- The timer of an MMC3 board. -/
def Board.timer? : Board → Option Mmc3.Timer
  | mmc3 b => some b.regs.timer
  | _ => none

namespace Cartridge

open Board.Mmc3 Timer

/-- The timer of an MMC3 cartridge. -/
def timer? (c : Cartridge) : Option Timer := c.board.timer?

/-- An operation clocks the scanline counter. -/
def clocksCounter (c : Cartridge) (op : Operation) : Bool :=
  match c.board with
  | .mmc3 b => b.regs.clockedBy op
  | _ => false

/-- The clocks that the scanline counter gets in a run. -/
def counterClocks : List Operation → Cartridge → Nat
  | [], _ => 0
  | op :: rest, c => (c.clocksCounter op).toNat + counterClocks rest (c.operate op).2

theorem timer?_eq_some_iff {c : Cartridge} {t : Timer} :
    c.timer? = some t ↔ ∃ b, c.board = .mmc3 b ∧ b.regs.timer = t := by
  unfold timer? Board.timer?
  cases hboard : c.board with
  | mmc3 b => simp
  | _ => simp

/-- **One operation.**  It clocks the timer, writes one of its registers or leaves it alone. -/
theorem timer?_operate {c : Cartridge} {t : Timer} (h : c.timer? = some t) {op : Operation}
    (hop : op.restores = false) :
    (c.operate op).2.timer? = some (if c.clocksCounter op then t.clock else t.written op) := by
  obtain ⟨b, hboard, rfl⟩ := timer?_eq_some_iff.mp h
  have hclocks : c.clocksCounter op = b.regs.clockedBy op := by rw [clocksCounter, hboard]
  rw [timer?, c.board_operate hop, hboard, b.operated_eq op, hclocks]
  exact congrArg some (b.regs.timer_operated op)

/-- An operation that clocks the counter adds one clock. -/
theorem counterClocks_clocked {c : Cartridge} {op : Operation} (h : c.clocksCounter op = true)
    (rest : List Operation) :
    c.counterClocks (op :: rest) = (c.operate op).2.counterClocks rest + 1 := by
  rw [counterClocks, h, Bool.toNat_true, Nat.add_comm]

/-- Any other adds none. -/
theorem counterClocks_idle {c : Cartridge} {op : Operation} (h : c.clocksCounter op = false)
    (rest : List Operation) :
    c.counterClocks (op :: rest) = (c.operate op).2.counterClocks rest := by
  rw [counterClocks, h, Bool.toNat_false, Nat.zero_add]

/-- What is left to count after a run that tunes nothing is what was to come after its clocks. -/
theorem counterAfter_run {ops : List Operation} (hops : ∀ op ∈ ops, op.tunes = false)
    {c : Cartridge} {t : Timer} (h : c.timer? = some t) :
    ∃ u, (c.run ops).2.timer? = some u ∧ u.latch = t.latch ∧
      ∀ k, u.counterAfter k = t.counterAfter (c.counterClocks ops + k) := by
  induction ops generalizing c t with
  | nil => exact ⟨t, h, rfl, fun k => (Nat.zero_add k).symm ▸ rfl⟩
  | cons op rest ih =>
    obtain ⟨hop, hrest⟩ := List.forall_mem_cons.mp hops
    have hstep := timer?_operate h (Operation.restores_of_tunes hop)
    cases hclock : c.clocksCounter op with
    | true =>
      -- The operation takes one of the clocks, and the rest of the run all others.
      rw [hclock, if_pos rfl] at hstep
      obtain ⟨u, hu, hlatch, hafter⟩ := ih hrest hstep
      refine ⟨u, hu, hlatch, fun k => ?_⟩
      rw [hafter, counterAfter_clock, counterClocks_clocked hclock, Nat.add_right_comm]
    | false =>
      rw [hclock, if_neg Bool.false_ne_true] at hstep
      obtain ⟨u, hu, hlatch, hafter⟩ := ih hrest hstep
      refine ⟨u, hu, hlatch.trans (counterAfter_written t hop 0).1, fun k => ?_⟩
      rw [hafter, (counterAfter_written t hop _).2, counterClocks_idle hclock]

/-- In a run that writes none of the timer's registers, the interrupt is raised when a clock leaves
zero in the counter, if it is enabled. -/
theorem pending_run {ops : List Operation}
    (hops : ∀ op ∈ ops, op.restores = false ∧ op.timerWrite? = none) {c : Cartridge} {t : Timer}
    (h : c.timer? = some t) :
    ∃ u, (c.run ops).2.timer? = some u ∧
      (u.pending = true ↔
        t.pending = true ∨ t.enabled = true ∧ t.ReachesZero (c.counterClocks ops)) := by
  -- the clocks that are left are those of the rest of the run, so the timer is generalized
  induction ops generalizing c t with
  | nil =>
    have hnone : ¬(t.enabled = true ∧ t.ReachesZero 0) := fun h => t.not_reachesZero_zero h.2
    exact ⟨t, h, (or_iff_left hnone).symm⟩
  | cons op rest ih =>
    obtain ⟨⟨hop, hwrite⟩, hrest⟩ := List.forall_mem_cons.mp hops
    have hstep := timer?_operate h hop
    cases hclock : c.clocksCounter op with
    | true =>
      rw [hclock, if_pos rfl] at hstep
      obtain ⟨u, hu, hpending⟩ := ih hrest hstep
      refine ⟨u, hu, ?_⟩
      rw [hpending, counterClocks_clocked hclock, reachesZero_succ, pending_clock, and_or_left,
        or_assoc]
      rfl
    | false =>
      have hwritten : t.written op = t := by rw [Timer.written, hwrite]
      rw [hclock, if_neg Bool.false_ne_true, hwritten] at hstep
      obtain ⟨u, hu, hpending⟩ := ih hrest hstep
      exact ⟨u, hu, counterClocks_idle hclock rest ▸ hpending⟩

/-- While the interrupt is disabled nothing raises it. -/
theorem disabled_run {ops : List Operation}
    (hops : ∀ op ∈ ops, op.restores = false ∧ ∀ value, op.timerWrite? ≠ some (.enable, value))
    {c : Cartridge} {t : Timer} (h : c.timer? = some t) (hdisabled : t.enabled = false) :
    ∃ u, (c.run ops).2.timer? = some u ∧ u.enabled = false ∧
      (u.pending = true → t.pending = true) := by
  induction ops generalizing c t with
  | nil => exact ⟨t, h, hdisabled, id⟩
  | cons op rest ih =>
    obtain ⟨⟨hop, hwrite⟩, hrest⟩ := List.forall_mem_cons.mp hops
    have hstep := timer?_operate h hop
    cases hclock : c.clocksCounter op with
    | true =>
      rw [hclock, if_pos rfl] at hstep
      obtain ⟨u, hu, henabled, hpending⟩ := ih hrest hstep hdisabled
      refine ⟨u, hu, henabled, fun hraised => ?_⟩
      -- a clock raises the interrupt only if it is enabled
      rcases (pending_clock t).mp (hpending hraised) with hbefore | ⟨hon, -⟩
      · exact hbefore
      · cases hdisabled.symm.trans hon
    | false =>
      rw [hclock, if_neg Bool.false_ne_true] at hstep
      obtain ⟨hoff, hkept⟩ := disabled_written hdisabled hwrite
      obtain ⟨u, hu, henabled, hpending⟩ := ih hrest hstep hoff
      exact ⟨u, hu, henabled, fun hraised => hkept (hpending hraised)⟩

/-! ## Reloading -/

/-- A reload was requested and the counter has not been clocked since.  The cartridge may have been
saved and restored in between. -/
inductive Rearmed : Cartridge → Prop
  | requested {c : Cartridge} {t : Timer} {op : Operation} {value : UInt8} (h : c.timer? = some t)
      (hop : op.timerWrite? = some (.reload, value)) : Rearmed (c.operate op).2
  | kept {c : Cartridge} {op : Operation} (hop : op.restores = false)
      (hclock : c.clocksCounter op = false) (h : Rearmed c) : Rearmed (c.operate op).2
  | restored {c d e : Cartridge} (he : c.restore d.save = .ok e) (h : Rearmed d) : Rearmed e

/-- A write of one of the timer's registers neither puts a saved state in nor clocks. -/
theorem Operation.of_timerWrite {op : Operation} {w : Register × UInt8}
    (h : op.timerWrite? = some w) :
    op.restores = false ∧ ∀ c : Cartridge, c.clocksCounter op = false := by
  cases op with
  | act a =>
    cases a with
    | write addr value =>
      refine ⟨rfl, fun c => ?_⟩
      unfold clocksCounter
      split <;> rfl
    | _ => cases h
  | _ => cases h

/-- A write of a register tunes what its register does. -/
theorem Operation.tunes_of_timerWrite {op : Operation} {register : Register} {value : UInt8}
    (h : op.timerWrite? = some (register, value)) : op.tunes = register.tunes := by
  rw [tunes, (of_timerWrite h).1, h]
  rfl

/-- A write of one of the timer's registers does just that. -/
theorem timer?_timerWrite {c : Cartridge} {t : Timer} (h : c.timer? = some t) {op : Operation}
    {register : Register} {value : UInt8} (hop : op.timerWrite? = some (register, value)) :
    (c.operate op).2.timer? = some (t.put register value) ∧ c.clocksCounter op = false := by
  obtain ⟨hrestores, hclock⟩ := Operation.of_timerWrite hop
  have hwritten : t.written op = t.put register value := by rw [Timer.written, hop]
  have hstep := timer?_operate h hrestores
  rw [hclock c, if_neg Bool.false_ne_true, hwritten] at hstep
  exact ⟨hstep, hclock c⟩

/-- The next clock reloads the counter. -/
theorem Rearmed.reload {c : Cartridge} (h : Rearmed c) :
    ∃ t, c.timer? = some t ∧ t.reload = true := by
  induction h with
  | requested h hop => exact ⟨_, (timer?_timerWrite h hop).1, rfl⟩
  | @kept c op hop hclock _ ih =>
    obtain ⟨t, ht, hreload⟩ := ih
    have hstep := timer?_operate ht hop
    rw [hclock, if_neg Bool.false_ne_true] at hstep
    exact ⟨_, hstep, reload_written hreload op⟩
  | @restored c d e he _ ih =>
    obtain ⟨t, ht, hreload⟩ := ih
    obtain ⟨b, hb, rfl⟩ := timer?_eq_some_iff.mp ht
    obtain ⟨board, workRam, chr, hboard, -, -, rfl⟩ := restore_eq_ok_iff.mp he
    refine ⟨b.regs.timer, ?_, hreload⟩
    -- the saved registers bring the request along, whichever MMC3 board takes them
    show board.timer? = _
    change c.board.install? d.board.registers = some board at hboard
    rw [hb] at hboard
    cases hc : c.board with
    | mmc3 b' =>
      rw [hc] at hboard
      cases hboard
      rfl
    | _ =>
      rw [hc] at hboard
      cases hboard

/-- The interrupt of the board is the one of its timer. -/
theorem irqPending_of_timer? {c : Cartridge} {t : Timer} (h : c.timer? = some t) :
    c.board.irqPending = t.pending := by
  obtain ⟨b, hboard, rfl⟩ := timer?_eq_some_iff.mp h
  rw [hboard]
  rfl

/-! ## Interrupts -/

/-- What an MMC3 cartridge with the given timer does from now on. -/
structure CountsScanlines (c : Cartridge) (t : Timer) : Prop where
  /-- If the interrupt is enabled and not raised, and there was no clock since a reload was
  requested, it comes with one clock more than the latch says. -/
  period : Rearmed c → t.enabled = true → t.pending = false → ∀ later : List Operation,
    (∀ op ∈ later, op.restores = false ∧ op.timerWrite? = none) →
    (c.run later).2.board.irqPending = decide (t.latch.toNat + 1 ≤ c.counterClocks later)
  /-- Once it was acknowledged and enabled again, it comes with the next clock that is a multiple of
  the period, counted from the request to reload. -/
  again : Rearmed c → ∀ (before between : List Operation) (acknowledge enable : Operation)
    (x y : UInt8), (∀ op ∈ before, op.tunes = false) →
    acknowledge.timerWrite? = some (.acknowledge, x) →
    (∀ op ∈ between, op.restores = false ∧ op.timerWrite? = none) →
    enable.timerWrite? = some (.enable, y) →
    let earlier := before ++ acknowledge :: between ++ [enable]
    let d := (c.run earlier).2
    ∀ later : List Operation, (∀ op ∈ later, op.restores = false ∧ op.timerWrite? = none) →
      ((d.run later).2.board.irqPending = true ↔
        ∃ m, t.latch.toNat + 1 ∣ m ∧ c.counterClocks earlier < m ∧
          m ≤ c.counterClocks earlier + d.counterClocks later)
  /-- A write of the latch leaves the count that is going on alone; the counter takes the value over
  when it is reloaded, and goes round from it. -/
  latched : ∀ (op : Operation) (value : UInt8), op.timerWrite? = some (.latch, value) →
    let d := (c.operate op).2
    d.timer? = some { t with latch := value } ∧
    ∀ later : List Operation, (∀ op ∈ later, op.tunes = false) →
      ∃ u, (d.run later).2.timer? = some u ∧
        let k := d.counterClocks later
        u.counter.toNat = if k ≤ t.untilReload then t.counter.toNat - k
          else value.toNat - (k - t.untilReload - 1) % (value.toNat + 1)
  /-- While the interrupt is disabled no clock raises it. -/
  disabled : t.enabled = false → ∀ later : List Operation,
    (∀ op ∈ later, op.restores = false ∧ ∀ y, op.timerWrite? ≠ some (.enable, y)) →
    (c.run later).2.board.irqPending = true → t.pending = true

/-- Acknowledged and enabled again, the interrupt is not raised. -/
theorem enabled_again {c : Cartridge} {t : Timer} (h : c.timer? = some t)
    {before between : List Operation} {acknowledge enable : Operation} {x y : UInt8}
    (hbefore : ∀ op ∈ before, op.tunes = false)
    (hack : acknowledge.timerWrite? = some (.acknowledge, x))
    (hbetween : ∀ op ∈ between, op.restores = false ∧ op.timerWrite? = none)
    (henable : enable.timerWrite? = some (.enable, y)) :
    ∃ u, (c.run (before ++ acknowledge :: between ++ [enable])).2.timer? = some u ∧
      u.enabled = true ∧ u.pending = false := by
  have hquiet : ∀ op ∈ between,
      op.restores = false ∧ ∀ value, op.timerWrite? ≠ some (.enable, value) := by
    intro op hop
    obtain ⟨hrestores, hnone⟩ := hbetween op hop
    exact ⟨hrestores, fun value hsome => nomatch hnone.symm.trans hsome⟩
  obtain ⟨t₁, ht₁, -⟩ := counterAfter_run hbefore h
  obtain ⟨hacked, -⟩ := timer?_timerWrite ht₁ hack
  obtain ⟨t₂, ht₂, -, hpending⟩ := disabled_run hquiet hacked rfl
  obtain ⟨henabled, -⟩ := timer?_timerWrite ht₂ henable
  refine ⟨t₂.put .enable y, ?_, rfl, Bool.eq_false_iff.mpr fun hraised => nomatch hpending hraised⟩
  rw [run_append, run_append]
  exact henabled

/-- After a request to reload and some clocks, the interrupt comes with the next multiple of the
period. -/
theorem irqPending_iff_multiple {c : Cartridge} {t : Timer} (h : c.timer? = some t)
    (hreload : t.reload = true) {earlier : List Operation}
    (hearlier : ∀ op ∈ earlier, op.tunes = false) {u : Timer}
    (hu : (c.run earlier).2.timer? = some u) (henabled : u.enabled = true)
    (hclear : u.pending = false) {later : List Operation}
    (hlater : ∀ op ∈ later, op.restores = false ∧ op.timerWrite? = none) :
    ((c.run earlier).2.run later).2.board.irqPending = true ↔
      ∃ m, t.latch.toNat + 1 ∣ m ∧ c.counterClocks earlier < m ∧
        m ≤ c.counterClocks earlier + (c.run earlier).2.counterClocks later := by
  obtain ⟨u', hu', -, hafter⟩ := counterAfter_run hearlier h
  cases Option.some.inj (hu.symm.trans hu')
  obtain ⟨v, hv, hpending⟩ := pending_run hlater hu
  rw [irqPending_of_timer? hv, hpending, hclear, henabled]
  -- both runs count from the same request, so their clocks add up
  have hzero (j : Nat) : u.counterAfter (j + 1) = 0 ↔
      t.latch.toNat + 1 ∣ c.counterClocks earlier + j + 1 := by
    rw [hafter, ← Nat.add_assoc]
    exact counterAfter_eq_zero_iff hreload _
  constructor
  · rintro (hraised | ⟨-, j, hj, hj0⟩)
    · cases hraised
    · exact ⟨_, (hzero j).mp hj0, by omega, Nat.add_lt_add_left hj _⟩
  · rintro ⟨m, hm, hlo, hhi⟩
    obtain ⟨j, rfl⟩ := Nat.exists_eq_add_of_lt hlo
    exact .inr ⟨rfl, j, by omega, (hzero j).mpr hm⟩

/-- **Scanline interrupts.**  Whatever state an MMC3 cartridge is in, the clocks of its counter,
from scanlines or from fetches, decide when interrupts come. -/
theorem counts_scanlines {c : Cartridge} {t : Timer} (h : c.timer? = some t) :
    CountsScanlines c t where
  period := by
    intro hrearmed henabled hclear later hlater
    obtain ⟨t', ht', hreload⟩ := hrearmed.reload
    cases Option.some.inj (h.symm.trans ht')
    have hnone : ∀ op ∈ ([] : List Operation), op.tunes = false := by simp
    rw [Bool.eq_iff_iff, decide_eq_true_iff]
    refine (irqPending_iff_multiple h hreload hnone h henabled hclear hlater).trans ?_
    constructor
    · rintro ⟨m, hm, hlo, hhi⟩
      change m ≤ 0 + c.counterClocks later at hhi
      rw [Nat.zero_add] at hhi
      exact Nat.le_trans (Nat.le_of_dvd hlo hm) hhi
    · intro hle
      refine ⟨_, Nat.dvd_refl _, Nat.succ_pos _, ?_⟩
      show _ ≤ 0 + c.counterClocks later
      rw [Nat.zero_add]
      exact hle
  again := by
    intro hrearmed before between acknowledge enable x y hbefore hack hbetween henable earlier d
      later hlater
    obtain ⟨t', ht', hreload⟩ := hrearmed.reload
    cases Option.some.inj (h.symm.trans ht')
    obtain ⟨u, hu, henabled, hclear⟩ := enabled_again h hbefore hack hbetween henable
    have hround : ∀ op ∈ acknowledge :: between, op.tunes = false :=
      List.forall_mem_cons.mpr ⟨Operation.tunes_of_timerWrite hack,
        fun op hop => Operation.tunes_of_none (hbetween op hop)⟩
    have hearlier : ∀ op ∈ earlier, op.tunes = false :=
      List.forall_mem_append.mpr ⟨List.forall_mem_append.mpr ⟨hbefore, hround⟩,
        List.forall_mem_singleton.mpr (Operation.tunes_of_timerWrite henable)⟩
    exact irqPending_iff_multiple h hreload hearlier hu henabled hclear hlater
  latched := by
    intro op value hop d
    obtain ⟨hd, -⟩ := timer?_timerWrite h hop
    refine ⟨hd, fun later hlater => ?_⟩
    obtain ⟨u, hu, -, hafter⟩ := counterAfter_run hlater hd
    refine ⟨u, hu, ?_⟩
    rw [← counterAfter_zero, hafter]
    rfl
  disabled := by
    intro hdisabled later hlater hraised
    obtain ⟨u, hu, -, hpending⟩ := disabled_run hlater h hdisabled
    exact hpending ((irqPending_of_timer? hu).symm.trans hraised)

/-- With a latch of two, the third clock brings the interrupt: a scanline, a fetch and a scanline.
After two more clocks it is acknowledged and enabled again, and comes with the sixth.  A new latch
is taken over after the count that it interrupts, and nothing comes while disabled. -/
theorem counts_scanlines_mixed :
    let line : Operation := .act .clockScanline
    let rise : List Operation := List.replicate 8 (.act (.observe 0x0FF0)) ++
      [.act (.observe 0x1000)]
    let acknowledge : Operation := .act (.write 0xE000 0)
    let enable : Operation := .act (.write 0xE001 0)
    ∃ made, ofImage { copier with mapper := 4 } = .ok made ∧
      let c := (made.run (Operation.writes [(0xC000, 2), (0xC001, 0), (0xE001, 0)])).2
      (c.run (line :: rise)).2.board.irqPending = false ∧
      (c.run (line :: rise ++ [line])).2.board.irqPending = true ∧
      let d := (c.run (line :: rise ++ [line] ++ rise ++ [line] ++ acknowledge :: [.read 0] ++
        [enable])).2
      d.board.irqPending = false ∧ (d.run rise).2.board.irqPending = true ∧
      (∃ u, (((c.run [line]).2.operate (.act (.write 0xC000 9))).2.run
        [line, line, line]).2.timer? = some u ∧ u.counter.toNat = 9) ∧
      ((c.run [acknowledge]).2.run [line, line, line]).2.board.irqPending = false := by
  intro line rise acknowledge enable
  refine ⟨_, rfl, ?_⟩
  intro c
  have hcounts := counts_scanlines (c := c) (t := ⟨2, 0, true, true, false⟩) (by decide +kernel)
  have hreload : Operation.timerWrite? (.act (.write 0xC001 0)) = some (.reload, 0) := rfl
  have henable : enable.restores = false := rfl
  have hrearmed : Rearmed c :=
    .kept henable (by decide +kernel)
      (.requested (t := ⟨2, 0, false, false, false⟩) (by decide +kernel) hreload)
  have hagain := hcounts.again hrearmed (line :: rise ++ [line] ++ rise ++ [line]) [.read 0]
    acknowledge enable 0 0 (by decide) rfl (by decide) rfl
  have hcounting := counts_scanlines (c := (c.run [line]).2) (t := ⟨2, 2, false, true, false⟩)
    (by decide +kernel)
  have hdisabled := counts_scanlines (c := (c.run [acknowledge]).2)
    (t := ⟨2, 0, true, false, false⟩) (by decide +kernel)
  refine ⟨?_, ?_, ?_, ?_, ?_, ?_⟩
  · rw [hcounts.period hrearmed rfl rfl _ (by decide)]
    decide +kernel
  · rw [hcounts.period hrearmed rfl rfl _ (by decide)]
    decide +kernel
  · refine Bool.eq_false_iff.mpr fun hraised => ?_
    obtain ⟨m, -, hlo, hhi⟩ := (hagain [] (by decide)).mp hraised
    change m ≤ _ + 0 at hhi
    rw [Nat.add_zero] at hhi
    exact absurd hhi (Nat.not_le_of_lt hlo)
  · exact (hagain rise (by decide)).mpr ⟨6, by decide, by decide +kernel, by decide +kernel⟩
  · obtain ⟨u, hu, hcounter⟩ := (hcounting.latched (.act (.write 0xC000 9)) 9 rfl).2
      [line, line, line] (by decide)
    exact ⟨u, hu, hcounter.trans (by decide +kernel)⟩
  · refine Bool.eq_false_iff.mpr fun hraised => ?_
    cases hdisabled.disabled rfl [line, line, line] (by decide +kernel) hraised

end Cartridge

end Famicom
