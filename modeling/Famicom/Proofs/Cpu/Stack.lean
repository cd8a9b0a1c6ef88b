import Famicom.Proofs.Cpu.Refinement
import Famicom.Proofs.Cpu.Within

/-!
# The stack gives back what it was given

Subroutines, interrupts and the instructions that save a register all push some bytes and later pull
as many.  The stack is page one, and wraps within it: whatever the stack pointer is, up to 256 bytes
come back in reverse order, and the stack pointer comes back with them.

* `piled`, `pulled_piled` — pushed bytes in memory, and pulling them.
* `pullAll_pushAll` — any list of them.
* `OnStack.pushAll`, `OnStack.pullAll` — what the bus sees of it.
* `Entered` — where a processor stands after it has pushed; `Entered.rts`, `Entered.rti`,
  `Entered.pla`, `Entered.plp` — pulling again.
* `stack_returns` — calls, interrupts and saved registers.
-/

namespace Famicom

open Famicom.Matrix (past wordAt stackCell previous next pulled pulledWord)

/-! ## Pushed bytes in memory -/

/-- A stack pointer after `n` pushes. -/
def lowered (sp : UInt8) : Nat → UInt8
  | 0 => sp
  | n + 1 => lowered (previous sp) n

/-- The cells that `n` pushes write. -/
def stackCells (sp : UInt8) : Nat → List UInt16
  | 0 => []
  | n + 1 => stackCell sp :: stackCells (previous sp) n

/-- Memory after bytes have been pushed one after the other. -/
def piled (m : FlatMemory) (sp : UInt8) : List UInt8 → FlatMemory
  | [] => m
  | b :: rest => piled (m.set (stackCell sp) b) (previous sp) rest

/-- The pointer wraps around within its page. -/
theorem toNat_lowered (sp : UInt8) (n : Nat) :
    (lowered sp n).toNat = (sp.toNat + 255 * n) % 256 := by
  induction n generalizing sp with
  | zero =>
    have := sp.toNat_lt
    rw [lowered]
    omega
  | succ n ih =>
    rw [lowered, ih, previous, UInt8.toNat_ofNat']
    omega

/-- As many pulls bring the stack pointer back. -/
theorem lowered_above (sp : UInt8) (n : Nat) :
    UInt8.ofNat ((lowered sp n).toNat + n) = sp := by
  have := sp.toNat_lt
  apply UInt8.toNat_inj.mp
  rw [UInt8.toNat_ofNat', toNat_lowered]
  omega

theorem toNat_stackCell (sp : UInt8) : (stackCell sp).toNat = 256 + sp.toNat := by
  have := sp.toNat_lt
  rw [stackCell, UInt16.toNat_ofNat_of_lt' (show _ < 65536 by omega)]

theorem mem_stackCells {sp : UInt8} {n : Nat} {addr : UInt16} :
    addr ∈ stackCells sp n ↔ ∃ k < n, addr = stackCell (lowered sp k) := by
  induction n generalizing sp with
  | zero => simp [stackCells]
  | succ n ih =>
    rw [stackCells, List.mem_cons, ih]
    constructor
    · rintro (rfl | ⟨k, hk, rfl⟩)
      · exact ⟨0, n.succ_pos, rfl⟩
      · exact ⟨k + 1, Nat.succ_lt_succ hk, rfl⟩
    · rintro ⟨_ | k, hk, rfl⟩
      · exact .inl rfl
      · exact .inr ⟨k, Nat.lt_of_succ_lt_succ hk, rfl⟩

/-- The stack is page one. -/
theorem stackCell_page (sp : UInt8) : 0x0100 ≤ stackCell sp ∧ stackCell sp ≤ 0x01FF := by
  have := sp.toNat_lt
  simp only [UInt16.le_iff_toNat_le, toNat_stackCell, UInt16.reduceToNat]
  omega

theorem page_of_mem_stackCells {sp : UInt8} {n : Nat} {addr : UInt16}
    (h : addr ∈ stackCells sp n) : 0x0100 ≤ addr ∧ addr ≤ 0x01FF := by
  obtain ⟨k, -, rfl⟩ := mem_stackCells.mp h
  exact stackCell_page _

/-- The 255 pushes after one do not come back to its cell. -/
theorem stackCell_not_mem {sp : UInt8} {n : Nat} (h : n < 256) :
    stackCell sp ∉ stackCells (previous sp) n := by
  intro hmem
  obtain ⟨k, hk, hcell⟩ := mem_stackCells.mp hmem
  have hsp := congrArg UInt16.toNat hcell
  have := sp.toNat_lt
  rw [toNat_stackCell, toNat_stackCell, toNat_lowered, previous, UInt8.toNat_ofNat'] at hsp
  omega

/-- Bytes outside the cells that were pushed to are as before. -/
theorem get_piled {m : FlatMemory} {sp : UInt8} {bytes : List UInt8} {addr : UInt16}
    (h : addr ∉ stackCells sp bytes.length) : (piled m sp bytes).get addr = m.get addr := by
  induction bytes generalizing m sp with
  | nil => rfl
  | cons b rest ih =>
    have hne : stackCell sp ≠ addr := fun heq => h (heq ▸ List.mem_cons_self)
    rw [piled, ih fun hmem => h (List.mem_cons_of_mem _ hmem), FlatMemory.get_set_ne _ _ hne]

/-- Pulling finds the bytes in reverse order. -/
theorem pulled_piled (m : FlatMemory) (sp : UInt8) (bytes : List UInt8) (k : Nat)
    (hbytes : bytes.length ≤ 256) (hk : k < bytes.length) :
    bytes.reverse[k]? = some (pulled (lowered sp bytes.length) (piled m sp bytes) (k + 1)) := by
  induction bytes generalizing m sp with
  | nil => exact absurd hk (Nat.not_lt_zero k)
  | cons b rest ih =>
    rw [List.length_cons] at hbytes hk
    rw [List.reverse_cons]
    by_cases hlast : k < rest.length
    · rw [List.getElem?_append_left (by rwa [List.length_reverse])]
      exact ih _ _ (by omega) hlast
    · -- the first byte is pulled last, and its cell has not been written again
      have hk : k = rest.length := by omega
      have hpulled : pulled (lowered sp (rest.length + 1)) (piled m sp (b :: rest))
          (rest.length + 1) = b := by
        rw [pulled, lowered_above, piled, get_piled (stackCell_not_mem hbytes),
          FlatMemory.get_set_self]
      rw [hk, List.length_cons, hpulled, ← List.length_reverse, List.getElem?_concat_length]

/-! ## Lists of bytes -/

namespace Exec

section

variable {σ : Type} [AddressSpace σ]

/-- Push bytes, the first one first. -/
def pushAll : List UInt8 → Exec σ Unit
  | [] => pure ()
  | b :: rest => do
    push b
    pushAll rest

/-- Pull bytes, and return them in the order they come. -/
def pullAll : Nat → Exec σ (List UInt8)
  | 0 => pure []
  | n + 1 => do
    let b ← pull
    return b :: (← pullAll n)

end

/-- Pushing piles the bytes up downward, by induction on them. -/
theorem pushAll_flat (bytes : List UInt8) (c : Cpu) (m : FlatMemory) :
    pushAll bytes (c, m) =
      ((), { c with sp := lowered c.sp bytes.length }, piled m c.sp bytes) := by
  induction bytes generalizing c m with
  | nil => rfl
  | cons b rest ih => rw [pushAll, bind_apply, Matrix.push_flat, Matrix.push, ih]; rfl

theorem pullAll_flat (n : Nat) (c : Cpu) (m : FlatMemory) :
    pullAll n (c, m) =
      ((List.range n).map fun k => pulled c.sp m (k + 1),
        { c with sp := UInt8.ofNat (c.sp.toNat + n) }, m) := by
  induction n generalizing c with
  | zero => simp [pullAll, pure_apply]
  | succ n ih =>
    have habove (k : Nat) : pulled (next c.sp) m (k + 1) = pulled c.sp m (1 + (k + 1)) :=
      Matrix.pulled_above c.sp m 1 (k + 1)
    have hsp : UInt8.ofNat ((next c.sp).toNat + n) = UInt8.ofNat (c.sp.toNat + (1 + n)) :=
      Matrix.above_above c.sp 1 n
    rw [pullAll, bind_apply, Matrix.pull_flat, bind_apply, ih, List.range_succ_eq_map]
    simp only [pure_apply, habove, hsp, List.map_cons, List.map_map, Nat.add_comm 1]
    rfl

/-- **Bytes come back in reverse order**, and the processor with them. -/
theorem pullAll_pushAll {bytes : List UInt8} (h : bytes.length ≤ 256) (c : Cpu) (m : FlatMemory) :
    pullAll bytes.length (pushAll bytes (c, m)).2 =
      (bytes.reverse, c, (pushAll bytes (c, m)).2.2) := by
  have hlist : (List.range bytes.length).map
      (fun k => pulled (lowered c.sp bytes.length) (piled m c.sp bytes) (k + 1)) =
        bytes.reverse := by
    refine List.ext_getElem? fun k => ?_
    rw [List.getElem?_map]
    by_cases hk : k < bytes.length
    · rw [pulled_piled m c.sp bytes k h hk, List.getElem?_range hk]
      rfl
    · rw [List.getElem?_eq_none (by rw [List.length_range]; omega),
        List.getElem?_eq_none (by rw [List.length_reverse]; omega)]
      rfl
  rw [pushAll_flat, pullAll_flat, hlist, lowered_above]

end Exec

/-! ## What the bus sees -/

/-- The address of an access. -/
def Access.addr : Access → UInt16
  | .read addr _ => addr
  | .write addr _ => addr

namespace Exec

variable {σ α β : Type}

/-- A computation makes no access outside the stack. -/
def OnStack (x : Exec (Recorder σ) α) : Prop :=
  ∀ s, ∃ made : List Access, (x s).2.2.latest = made ++ s.2.latest ∧
    ∀ access ∈ made, 0x0100 ≤ access.addr ∧ access.addr ≤ 0x01FF

namespace OnStack

theorem pure (a : α) : OnStack (pure a : Exec (Recorder σ) α) := fun _ => ⟨[], rfl, by simp⟩

theorem bind {x : Exec (Recorder σ) α} {f : α → Exec (Recorder σ) β} (hx : OnStack x)
    (hf : ∀ a, OnStack (f a)) : OnStack (x >>= f) := by
  intro s
  obtain ⟨first, hfirst, honFirst⟩ := hx s
  obtain ⟨second, hsecond, honSecond⟩ := hf (x s).1 (x s).2
  refine ⟨second ++ first, ?_, ?_⟩
  · rw [bind_apply, hsecond, hfirst, List.append_assoc]
  · exact fun access hmem =>
      (List.mem_append.mp hmem).elim (honSecond access) (honFirst access)

/-- One access at the stack pointer. -/
theorem of_cell {x : Exec (Recorder σ) α}
    (h : ∀ s, ∃ (sp : UInt8) (access : Access),
      (x s).2.2.latest = access :: s.2.latest ∧ access.addr = stackCell sp) : OnStack x := by
  intro s
  obtain ⟨sp, access, hlatest, haddr⟩ := h s
  refine ⟨[access], hlatest, fun other hother => ?_⟩
  rw [List.mem_singleton.mp hother, haddr]
  exact stackCell_page sp

variable [AddressSpace σ]

theorem push (v : UInt8) : OnStack (push v : Exec (Recorder σ) Unit) :=
  of_cell fun s => ⟨s.1.sp, .write s.1.stackAddress v, rfl, Matrix.stackAddress_eq s.1⟩

theorem pull : OnStack (pull : Exec (Recorder σ) UInt8) :=
  of_cell fun s =>
    ⟨s.1.sp + 1, .read _ _, rfl, Matrix.stackAddress_eq { s.1 with sp := s.1.sp + 1 }⟩

theorem pushAll (bytes : List UInt8) : OnStack (pushAll bytes : Exec (Recorder σ) Unit) := by
  induction bytes with
  | nil => exact pure ()
  | cons b rest ih => exact bind (push b) fun _ => ih

theorem pullAll (n : Nat) : OnStack (pullAll n : Exec (Recorder σ) (List UInt8)) := by
  induction n with
  | zero => exact pure []
  | succ n ih => exact bind pull fun _ => bind ih fun _ => pure _

end OnStack

end Exec

/-! ## Returning to a pushed address -/

/-- The bytes of a word as they are pushed. -/
def wordBytes (w : UInt16) : List UInt8 := [UInt8.ofNat (w.toNat / 256), UInt8.ofNat w.toNat]

/-- The word of two bytes that are pulled, the low one first. -/
theorem pulledWord_of_bytes {sp : UInt8} {m : FlatMemory} {n : Nat} {w : UInt16}
    (hlow : pulled sp m n = UInt8.ofNat w.toNat)
    (hhigh : pulled sp m (n + 1) = UInt8.ofNat (w.toNat / 256)) : pulledWord sp m n = w := by
  have := w.toNat_lt
  apply UInt16.toNat_inj.mp
  rw [pulledWord, hlow, hhigh, UInt16.toNat_ofNat', UInt8.toNat_ofNat', UInt8.toNat_ofNat']
  omega

section

variable (m : FlatMemory) (sp : UInt8) (w : UInt16) (status : UInt8)

theorem pulled_byte (b : UInt8) : pulled (lowered sp 1) (piled m sp [b]) 1 = b :=
  (Option.some.inj (pulled_piled m sp [b] 0 (by simp) (by simp))).symm

/-- A word that was pushed is pulled again. -/
theorem pulledWord_wordBytes : pulledWord (lowered sp 2) (piled m sp (wordBytes w)) 1 = w := by
  have hpulled (k : Nat) := pulled_piled m sp (wordBytes w) k (by simp [wordBytes])
  exact pulledWord_of_bytes (Option.some.inj (hpulled 0 (by simp [wordBytes]))).symm
    (Option.some.inj (hpulled 1 (by simp [wordBytes]))).symm

theorem pulled_status :
    pulled (lowered sp 3) (piled m sp (wordBytes w ++ [status])) 1 = status := by
  have hpulled := pulled_piled m sp (wordBytes w ++ [status]) 0
  exact (Option.some.inj (hpulled (by simp [wordBytes]) (by simp [wordBytes]))).symm

theorem pulledWord_under_status :
    pulledWord (lowered sp 3) (piled m sp (wordBytes w ++ [status])) 2 = w := by
  have hpulled (k : Nat) := pulled_piled m sp (wordBytes w ++ [status]) k (by simp [wordBytes])
  exact pulledWord_of_bytes (Option.some.inj (hpulled 1 (by simp [wordBytes]))).symm
    (Option.some.inj (hpulled 2 (by simp [wordBytes]))).symm

end

/-- A machine is back at `pc` after `n` bytes of the stack have been used: registers are as they
were, and so is memory elsewhere. -/
structure BackAt (pc : UInt16) (n : Nat) (s t : Cpu × FlatMemory) : Prop where
  pc : t.1.pc = pc
  sp : t.1.sp = s.1.sp
  p : t.1.p = s.1.p
  a : t.1.a = s.1.a
  x : t.1.x = s.1.x
  y : t.1.y = s.1.y
  memory : ∀ addr ∉ stackCells s.1.sp n, t.2.get addr = s.2.get addr

/-- A processor that has been sent to `target` with `n` bytes on the stack and a status `p`. -/
structure Entered (target : UInt16) (n : Nat) (p : Status) (c d : Cpu) : Prop where
  halt : d.halt = c.halt
  pc : d.pc = target
  sp : d.sp = lowered c.sp n
  p : d.p = p
  a : d.a = c.a
  x : d.x = c.x
  y : d.y = c.y

section Returning

variable {c d : Cpu} {m : FlatMemory} {target w : UInt16} {p : Status} {n : Nat}

theorem Entered.spend (h : Entered target n p c d) (cycles : Nat) :
    Entered target n p c (d.spend cycles) := ⟨h.halt, h.pc, h.sp, h.p, h.a, h.x, h.y⟩

/-- The instruction at `target` is executed as it stood before the bytes were pushed. -/
theorem Entered.step {bytes : List UInt8} {opcode : UInt8} {name : Matrix.Mnemonic}
    {mode : Matrix.Addressing} (h : Entered target n p c d) (running : c.halt = none)
    (hopcode : m.get target = opcode) (hcell : target ∉ stackCells c.sp n)
    (hn : bytes.length = n) (hentry : Matrix.entry opcode = (name, mode)) :
    (Exec.step (d, piled m c.sp bytes)).2 =
      ((Matrix.perform name mode d (piled m c.sp bytes)).1.spend (Timing.cycles opcode),
        (Matrix.perform name mode d (piled m c.sp bytes)).2) := by
  have hkept : (piled m c.sp bytes).get target = m.get target := get_piled (hn ▸ hcell)
  have hfound : (piled m c.sp bytes).get d.pc = opcode := by rw [h.pc, hkept, hopcode]
  exact Matrix.step_eq_perform (h.halt.trans running) hfound hentry

/-- A subroutine that was entered with `w` on the stack returns behind `w`. -/
theorem Entered.rts (h : Entered target 2 c.p c d) (running : c.halt = none)
    (hopcode : m.get target = 0x60) (hcell : target ∉ stackCells c.sp 2) :
    BackAt (past w 1) 2 (c, m) (Exec.step (d, piled m c.sp (wordBytes w))).2 := by
  have hentry : Matrix.entry 0x60 = (.rts, .imp) := rfl
  have hpulled := pulledWord_wordBytes m c.sp w
  have hback := lowered_above c.sp 2
  rw [← h.sp] at hpulled hback
  rw [h.step running hopcode hcell (rfl : (wordBytes w).length = 2) hentry]
  simp only [Matrix.perform, hpulled, hback]
  exact ⟨rfl, rfl, h.p, h.a, h.x, h.y, fun _ h => get_piled h⟩

/-- A handler that was entered with `w` and a status on the stack returns to them. -/
theorem Entered.rti {status : UInt8} (h : Entered target 3 p c d) (running : c.halt = none)
    (hopcode : m.get target = 0x40) (hcell : target ∉ stackCells c.sp 3)
    (hp : Status.ofPulled status = c.p) :
    BackAt w 3 (c, m) (Exec.step (d, piled m c.sp (wordBytes w ++ [status]))).2 := by
  have hentry : Matrix.entry 0x40 = (.rti, .imp) := rfl
  have hstatus := pulled_status m c.sp w status
  have hpulled := pulledWord_under_status m c.sp w status
  have hback := lowered_above c.sp 3
  rw [← h.sp] at hstatus hpulled hback
  rw [h.step running hopcode hcell (rfl : (wordBytes w ++ [status]).length = 3) hentry]
  simp only [Matrix.perform, hstatus, hpulled, hback, ← Matrix.pulledStatus_eq, hp]
  exact ⟨rfl, rfl, rfl, h.a, h.x, h.y, fun _ h => get_piled h⟩

/-- An accumulator that was saved as `b` becomes `b`. -/
theorem Entered.pla {b : UInt8} (h : Entered target 1 c.p c d) (running : c.halt = none)
    (hopcode : m.get target = 0x68) (hcell : target ∉ stackCells c.sp 1) :
    BackAt (past target 1) 1 ({ c with a := b }.putResult b, m)
      (Exec.step (d, piled m c.sp [b])).2 := by
  have hentry : Matrix.entry 0x68 = (.pla, .imp) := rfl
  have hpulled := pulled_byte m c.sp b
  have hback : next (lowered c.sp 1) = c.sp := lowered_above c.sp 1
  rw [h.step running hopcode hcell (rfl : [b].length = 1) hentry]
  simp only [Matrix.perform, h.pc, h.sp, h.p, hpulled, hback, Matrix.putResult_eq]
  exact ⟨rfl, rfl, rfl, rfl, h.x, h.y, fun _ h => get_piled h⟩

/-- A status that was saved is taken back. -/
theorem Entered.plp {status : UInt8} (h : Entered target 1 p c d) (running : c.halt = none)
    (hopcode : m.get target = 0x28) (hcell : target ∉ stackCells c.sp 1)
    (hp : Status.ofPulled status = c.p) :
    BackAt (past target 1) 1 (c, m) (Exec.step (d, piled m c.sp [status])).2 := by
  have hentry : Matrix.entry 0x28 = (.plp, .imp) := rfl
  have hpulled := pulled_byte m c.sp status
  have hback : next (lowered c.sp 1) = c.sp := lowered_above c.sp 1
  rw [h.step running hopcode hcell (rfl : [status].length = 1) hentry]
  simp only [Matrix.perform, h.pc, h.sp, hpulled, hback, ← Matrix.pulledStatus_eq, hp]
  exact ⟨rfl, rfl, rfl, h.a, h.x, h.y, fun _ h => get_piled h⟩

end Returning

/-! ## Leaving -/

section Leaving

variable {c : Cpu} {m : FlatMemory}

theorem pushWord_piled (w : UInt16) (c : Cpu) (m : FlatMemory) :
    Matrix.pushWord w (c, m) =
      ({ c with sp := lowered c.sp 2 }, piled m c.sp (wordBytes w)) := rfl

theorem push_pushWord (v : UInt8) (w : UInt16) (c : Cpu) (m : FlatMemory) :
    Matrix.push v (Matrix.pushWord w (c, m)) =
      ({ c with sp := lowered c.sp 3 }, piled m c.sp (wordBytes w ++ [v])) := rfl

/-- Vectors lie above the stack. -/
theorem wordAt_piled (m : FlatMemory) (sp : UInt8) (bytes : List UInt8) {lo hi : UInt16}
    (hlo : 0x01FF < lo) (hhi : 0x01FF < hi) : wordAt (piled m sp bytes) lo hi = wordAt m lo hi := by
  have habove {addr : UInt16} (h : 0x01FF < addr) :
      (piled m sp bytes).get addr = m.get addr := by
    refine get_piled fun hmem => ?_
    have hpage := (page_of_mem_stackCells hmem).2
    rw [UInt16.le_iff_toNat_le] at hpage
    rw [UInt16.lt_iff_toNat_lt] at h
    omega
  rw [wordAt, habove hlo, habove hhi, wordAt]

theorem jsr_enters (running : c.halt = none) (hopcode : m.get c.pc = 0x20) :
    ∃ d, Entered (wordAt m (past c.pc 1) (past c.pc 2)) 2 c.p c d ∧
      (Exec.step (c, m)).2 = (d, piled m c.sp (wordBytes (past c.pc 2))) := by
  have hentry : Matrix.entry 0x20 = (.jsr, .abs) := rfl
  rw [Matrix.step_eq_perform running hopcode hentry]
  simp only [Matrix.perform, pushWord_piled]
  refine ⟨_, .spend ?_ _, rfl⟩
  exact ⟨rfl, rfl, rfl, rfl, rfl, rfl, rfl⟩

theorem call_enters (target returnTo : UInt16) (c : Cpu) (m : FlatMemory) :
    ∃ d, Entered target 2 c.p c d ∧
      (Exec.call target returnTo (c, m)).2 = (d, piled m c.sp (wordBytes (returnTo - 1))) := by
  simp only [Exec.call, Exec.bind_apply, Matrix.pushWord_flat, pushWord_piled, Exec.jump,
    Exec.update_flat]
  refine ⟨_, ?_, rfl⟩
  exact ⟨rfl, rfl, rfl, rfl, rfl, rfl, rfl⟩

theorem pha_enters (running : c.halt = none) (hopcode : m.get c.pc = 0x48) :
    ∃ d, Entered (past c.pc 1) 1 c.p c d ∧ (Exec.step (c, m)).2 = (d, piled m c.sp [c.a]) := by
  have hentry : Matrix.entry 0x48 = (.pha, .imp) := rfl
  rw [Matrix.step_eq_perform running hopcode hentry]
  refine ⟨_, .spend ?_ _, rfl⟩
  exact ⟨rfl, rfl, rfl, rfl, rfl, rfl, rfl⟩

theorem php_enters (running : c.halt = none) (hopcode : m.get c.pc = 0x08) :
    ∃ d, Entered (past c.pc 1) 1 c.p c d ∧
      (Exec.step (c, m)).2 = (d, piled m c.sp [c.p.softwareCopy]) := by
  have hentry : Matrix.entry 0x08 = (.php, .imp) := rfl
  rw [Matrix.step_eq_perform running hopcode hentry, Matrix.pushedStatus_eq]
  refine ⟨_, .spend ?_ _, rfl⟩
  exact ⟨rfl, rfl, rfl, rfl, rfl, rfl, rfl⟩

theorem brk_enters (running : c.halt = none) (hopcode : m.get c.pc = 0x00) :
    ∃ d, Entered (wordAt m 0xFFFE 0xFFFF) 3 (c.p.put .interruptDisable true) c d ∧
      (Exec.step (c, m)).2 =
        (d, piled m c.sp (wordBytes (past c.pc 2) ++ [c.p.softwareCopy])) := by
  have hentry : Matrix.entry 0x00 = (.brk, .imp) := rfl
  have hperform : Matrix.perform .brk .imp c m =
      ({ c with
          p := (c.put .interruptDisable true).p
          sp := lowered c.sp 3
          pc := wordAt m 0xFFFE 0xFFFF },
        piled m c.sp (wordBytes (past c.pc 2) ++ [c.p.softwareCopy])) := by
    simp only [Matrix.perform, push_pushWord, Matrix.pushedStatus_eq, Matrix.put_eq_setFlags,
      Matrix.setFlags, Matrix.pushedStatus, Matrix.flags, Matrix.Flags.assign,
      wordAt_piled m c.sp _ (show 0x01FF < 0xFFFE by decide) (show 0x01FF < 0xFFFF by decide)]
  rw [Matrix.step_eq_perform running hopcode hentry, hperform]
  refine ⟨_, .spend ?_ _, rfl⟩
  exact ⟨rfl, rfl, rfl, rfl, rfl, rfl, rfl⟩

/-- The vector lies above the stack, so pushing cannot change it. -/
theorem interrupt_enters {vector : UInt16} (hlo : 0x01FF < vector) (hhi : 0x01FF < vector + 1)
    (c : Cpu) (m : FlatMemory) :
    ∃ d, Entered (wordAt m vector (vector + 1)) 3 (c.p.put .interruptDisable true) c d ∧
      (Exec.interrupt vector (c, m)).2 =
        (d, piled m c.sp (wordBytes c.pc ++ [c.p.interruptCopy])) := by
  have hstatus := push_pushWord c.p.interruptCopy c.pc c m
  rw [pushWord_piled] at hstatus
  simp only [Exec.interrupt, Exec.bind_apply, Exec.registers_flat, Matrix.pushWord_flat,
    pushWord_piled, Matrix.push_flat, hstatus, Exec.update_flat, Exec.jump, Exec.pure_apply,
    Matrix.readWord_flat, wordAt_piled m c.sp _ hlo hhi, Cpu.put]
  refine ⟨_, .spend ?_ _, rfl⟩
  exact ⟨rfl, rfl, rfl, rfl, rfl, rfl, rfl⟩

end Leaving

/-! ## Leaving and returning -/

/-- Break and unused, as a status has them in the processor, survive being pushed and pulled. -/
theorem Status.ofPulled_softwareCopy {p : Status} (hunused : p.test .unused = true)
    (hbrk : p.test .brk = false) : Status.ofPulled p.softwareCopy = p := by
  obtain ⟨bits⟩ := p
  revert bits
  decide +kernel

theorem Status.ofPulled_interruptCopy {p : Status} (hunused : p.test .unused = true)
    (hbrk : p.test .brk = false) : Status.ofPulled p.interruptCopy = p := by
  obtain ⟨bits⟩ := p
  revert bits
  decide +kernel

/-- What comes back, and where.  A subroutine and a handler return with their first instruction; no
push may overwrite the instruction that returns.  Where an instruction starts it, the processor has
to be running to execute it. -/
structure Returns (c : Cpu) (m : FlatMemory) : Prop where
  /-- A subroutine returns behind the instruction that called it. -/
  jsr : ∀ target, c.halt = none → m.get c.pc = 0x20 →
    wordAt m (past c.pc 1) (past c.pc 2) = target → m.get target = 0x60 →
    target ∉ stackCells c.sp 2 →
    BackAt (past c.pc 3) 2 (c, m) (Exec.step (Exec.step (c, m)).2).2
  /-- A subroutine called from outside returns where it was told to. -/
  call : ∀ target returnTo, c.halt = none → m.get target = 0x60 → target ∉ stackCells c.sp 2 →
    BackAt returnTo 2 (c, m) (Exec.step (Exec.call target returnTo (c, m)).2).2
  /-- A non-maskable interrupt returns to the interrupted instruction. -/
  nmi : ∀ target, wordAt m 0xFFFA 0xFFFB = target → m.get target = 0x40 →
    target ∉ stackCells c.sp 3 → BackAt c.pc 3 (c, m) (Exec.step (Exec.nmi (c, m)).2).2
  /-- So does a maskable one that is not masked. -/
  irq : ∀ target, c.p.test .interruptDisable = false → wordAt m 0xFFFE 0xFFFF = target →
    m.get target = 0x40 → target ∉ stackCells c.sp 3 →
    BackAt c.pc 3 (c, m) (Exec.step (Exec.irq (c, m)).2).2
  /-- A break returns two bytes on, over the byte behind it. -/
  brk : ∀ target, c.halt = none → m.get c.pc = 0x00 → wordAt m 0xFFFE 0xFFFF = target →
    m.get target = 0x40 → target ∉ stackCells c.sp 3 →
    BackAt (past c.pc 2) 3 (c, m) (Exec.step (Exec.step (c, m)).2).2
  /-- The accumulator comes back; zero and negative follow it. -/
  pha : c.halt = none → m.get c.pc = 0x48 → m.get (past c.pc 1) = 0x68 →
    past c.pc 1 ∉ stackCells c.sp 1 →
    BackAt (past c.pc 2) 1 (c.putResult c.a, m) (Exec.step (Exec.step (c, m)).2).2
  /-- The status comes back. -/
  php : c.halt = none → m.get c.pc = 0x08 → m.get (past c.pc 1) = 0x28 →
    past c.pc 1 ∉ stackCells c.sp 1 →
    BackAt (past c.pc 2) 1 (c, m) (Exec.step (Exec.step (c, m)).2).2

theorem past_past (addr : UInt16) (j k : Nat) : past (past addr j) k = past addr (j + k) := by
  apply UInt16.toNat_inj.mp
  simp only [past, UInt16.toNat_ofNat']
  omega

theorem past_sub_one (addr : UInt16) : past (addr - 1) 1 = addr := by
  rw [Matrix.past_one, UInt16.sub_add_cancel]

section Back

variable {c : Cpu} {m : FlatMemory}

theorem BackAt.interrupt {vector : UInt16} (hlo : 0x01FF < vector) (hhi : 0x01FF < vector + 1)
    (hunused : c.p.test .unused = true) (hbrk : c.p.test .brk = false) (running : c.halt = none)
    (hhandler : m.get (wordAt m vector (vector + 1)) = 0x40)
    (hcell : wordAt m vector (vector + 1) ∉ stackCells c.sp 3) :
    BackAt c.pc 3 (c, m) (Exec.step (Exec.interrupt vector (c, m)).2).2 := by
  obtain ⟨d, hd, hstep⟩ := interrupt_enters hlo hhi c m
  rw [hstep]
  exact hd.rti running hhandler hcell (Status.ofPulled_interruptCopy hunused hbrk)

/-- A jammed processor takes no interrupt and executes nothing, so it is where it was. -/
theorem BackAt.jammed (n : Nat) (jammed : c.halt.isSome) :
    BackAt c.pc n (c, m) (Exec.step (c, m)).2 := by
  rw [Exec.step_of_jammed jammed]
  exact ⟨rfl, rfl, rfl, rfl, rfl, rfl, fun _ _ => rfl⟩

theorem returns (hunused : c.p.test .unused = true) (hbrk : c.p.test .brk = false) :
    Returns c m where
  jsr := by
    rintro target running hopcode rfl hreturn hcell
    obtain ⟨d, hd, hstep⟩ := jsr_enters running hopcode
    rw [hstep, ← past_past c.pc 2 1]
    exact hd.rts running hreturn hcell
  call := by
    intro target returnTo running hreturn hcell
    obtain ⟨d, hd, hstep⟩ := call_enters target returnTo c m
    have hback : BackAt (past (returnTo - 1) 1) 2 (c, m) _ := hd.rts running hreturn hcell
    rw [hstep]
    rwa [past_sub_one] at hback
  nmi := by
    rintro target rfl hhandler hcell
    -- in a jam nothing is entered, and so there is nothing to return from
    by_cases jammed : c.halt.isSome
    · have hnone : Exec.nmi (c, m) = (0, c, m) := congrFun (if_pos jammed) _
      rw [hnone]
      exact .jammed 3 jammed
    · have htaken : Exec.nmi (c, m) = Exec.interrupt nmiVector (c, m) :=
        congrFun (if_neg jammed) _
      rw [htaken]
      exact .interrupt (by decide) (by decide) hunused hbrk (by simpa using jammed) hhandler hcell
  irq := by
    rintro target hmask rfl hhandler hcell
    by_cases jammed : c.halt.isSome
    · have hnone : Exec.irq (c, m) = (0, c, m) :=
        congrFun (if_pos (by rw [jammed, Bool.true_or])) _
      rw [hnone]
      exact .jammed 3 jammed
    · have htaken : Exec.irq (c, m) = Exec.interrupt irqVector (c, m) :=
        congrFun (if_neg (by rw [hmask, Bool.or_false]; exact jammed)) _
      rw [htaken]
      exact .interrupt (by decide) (by decide) hunused hbrk (by simpa using jammed) hhandler hcell
  brk := by
    rintro target running hopcode rfl hhandler hcell
    obtain ⟨d, hd, hstep⟩ := brk_enters running hopcode
    rw [hstep]
    exact hd.rti running hhandler hcell (Status.ofPulled_softwareCopy hunused hbrk)
  pha := by
    intro running hopcode hnext hcell
    obtain ⟨d, hd, hstep⟩ := pha_enters running hopcode
    rw [hstep, ← past_past c.pc 1 1]
    exact hd.pla running hnext hcell
  php := by
    intro running hopcode hnext hcell
    obtain ⟨d, hd, hstep⟩ := php_enters running hopcode
    rw [hstep, ← past_past c.pc 1 1]
    exact hd.plp running hnext hcell (Status.ofPulled_softwareCopy hunused hbrk)

end Back

/-- **The stack gives back what it was given.**  Calls, interrupts and saved registers return,
wherever the stack pointer stands and wraps.  Any list of at most 256 bytes that is pushed is pulled
in reverse order, after which the processor is as it was; memory outside page one keeps its bytes,
and on any bus no access leaves that page. -/
theorem stack_returns {c : Cpu} (m : FlatMemory) (hunused : c.p.test .unused = true)
    (hbrk : c.p.test .brk = false) :
    Returns c m ∧
    (∀ (bytes : List UInt8) (c : Cpu) (m : FlatMemory), bytes.length ≤ 256 →
      Exec.pullAll bytes.length (Exec.pushAll bytes (c, m)).2 =
          (bytes.reverse, c, (Exec.pushAll bytes (c, m)).2.2) ∧
        ∀ addr, (Exec.pushAll bytes (c, m)).2.2.get addr ≠ m.get addr →
          0x0100 ≤ addr ∧ addr ≤ 0x01FF) ∧
    (∀ {σ : Type} [AddressSpace σ] (bytes : List UInt8),
      Exec.OnStack (Exec.pushAll bytes : Exec (Recorder σ) Unit) ∧
        Exec.OnStack (Exec.pullAll bytes.length : Exec (Recorder σ) (List UInt8))) := by
  refine ⟨returns hunused hbrk, fun bytes c m h => ⟨Exec.pullAll_pushAll h c m, fun addr hne => ?_⟩,
    fun bytes => ⟨.pushAll bytes, .pullAll bytes.length⟩⟩
  by_cases hmem : addr ∈ stackCells c.sp bytes.length
  · exact page_of_mem_stackCells hmem
  · rw [Exec.pushAll_flat] at hne
    exact absurd (get_piled hmem) hne

/-- A call, the subroutine that returns at once, and behind it the handler of the non-maskable
interrupt that does. -/
def bouncing : FlatMemory :=
  (((FlatMemory.ofBytes #[]).load 0x8000 [0x20, 0x00, 0x90]).load 0x9000 [0x60, 0x40]).load 0xFFFA
    [0x01, 0x90]

theorem get_bouncing (addr : UInt16) :
    bouncing.get addr =
      if addr = 0xFFFB then 0x90 else if addr = 0xFFFA then 0x01
      else if addr = 0x9001 then 0x40 else if addr = 0x9000 then 0x60
      else if addr = 0x8002 then 0x90 else if addr = 0x8001 then 0x00
      else if addr = 0x8000 then 0x20 else (FlatMemory.ofBytes #[]).get addr := by
  simp [bouncing, FlatMemory.load, FlatMemory.get_set, eq_comm]

/-- The stack pointer wraps in the middle of the return address. -/
theorem stack_returns_wrapped :
    let c : Cpu := { Cpu.powerOn with sp := 0x00, pc := 0x8000 }
    c.p.test .unused = true ∧ c.p.test .brk = false ∧ stackCells c.sp 2 = [0x0100, 0x01FF] ∧
      BackAt 0x8003 2 (c, bouncing) (Exec.step (Exec.step (c, bouncing)).2).2 ∧
      BackAt 0x8000 3 (c, bouncing) (Exec.step (Exec.nmi (c, bouncing)).2).2 ∧
      (Exec.pullAll 3 (Exec.pushAll [0x0A, 0x0B, 0x0C] (c, bouncing)).2).1 =
        [0x0C, 0x0B, 0x0A] := by
  have hget := get_bouncing
  obtain ⟨m, hm⟩ : ∃ m, bouncing = m := ⟨_, rfl⟩
  rw [hm] at hget ⊢
  intro c
  have hcells (n : Nat) {addr : UInt16} (h : 0x01FF < addr) : addr ∉ stackCells c.sp n :=
    fun hmem => absurd (page_of_mem_stackCells hmem).2 (UInt16.not_le.mpr h)
  have hsubroutine : wordAt m 0x8001 0x8002 = 0x9000 := by
    rw [wordAt, hget 0x8001, hget 0x8002]
    rfl
  have hhandler : wordAt m 0xFFFA 0xFFFB = 0x9001 := by
    rw [wordAt, hget 0xFFFA, hget 0xFFFB]
    rfl
  have hunused : Status.powerOn.test .unused = true := rfl
  have hbrk : Status.powerOn.test .brk = false := rfl
  obtain ⟨hreturns, hbytes, -⟩ := stack_returns (c := c) m hunused hbrk
  have hwrapped : stackCells 0x00 2 = [0x0100, 0x01FF] := by decide
  refine ⟨hunused, hbrk, hwrapped, ?_, ?_, ?_⟩
  · exact hreturns.jsr 0x9000 rfl (hget 0x8000) hsubroutine (hget 0x9000) (hcells 2 (by decide))
  · exact hreturns.nmi 0x9001 hhandler (hget 0x9001) (hcells 3 (by decide))
  · exact congrArg Prod.fst (hbytes [0x0A, 0x0B, 0x0C] c m (by decide)).1

end Famicom
