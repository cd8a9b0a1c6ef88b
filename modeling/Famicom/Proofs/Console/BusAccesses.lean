import Famicom.Console.Bus
import Famicom.Proofs.Sound.Safety
import Mathlib.Tactic.SplitIfs

/-!
# What an access can reach

The bus sends each access to one place.  A write changes the part of the bus that its address names
and no other, a read changes nothing unless it acknowledges an interrupt, and either is counted
once.  Over a run of accesses RAM therefore gives back what was written last, the counters add up,
and reads that acknowledge nothing leave no trace but in the counters.

* `Bus.Part` — the part that a write can change.
* `Bus.written_write`, `Bus.looked_read` — one access.
* `Bus.ram_after`, `Bus.counters_after` — a run, told from its accesses.
* `Bus.after_filter` — a run and what is left of it without its probing reads.
* `Bus.accesses_isolated` — all of it.
-/

namespace Famicom

/-! ## Counting -/

namespace Counters

/-- The accesses to a region. -/
def tally (c : Counters) : Region → Tally
  | .ram => c.ram
  | .picture => c.picture
  | .audio => c.audio
  | .cartridge => c.cartridge

/-- The reads of the processor, of all regions together. -/
def reads (c : Counters) : UInt64 :=
  c.ram.reads + c.picture.reads + c.audio.reads + c.cartridge.reads

/-- The writes of the processor, of all regions together. -/
def writes (c : Counters) : UInt64 :=
  c.ram.writes + c.picture.writes + c.audio.writes + c.cartridge.writes

/-- An access to a region has been counted there and nowhere else. -/
structure Counted (region : Region) (f : Tally → Tally) (c d : Counters) : Prop where
  here : d.tally region = f (c.tally region)
  elsewhere : ∀ other, other ≠ region → d.tally other = c.tally other
  pattern : d.pattern = c.pattern

/-- Counting goes to one region. -/
theorem counted_count (region : Region) (f : Tally → Tally) (c : Counters) :
    Counted region f c (c.count region f) := by
  refine ⟨by cases region <;> rfl, fun other hother => ?_, by cases region <;> rfl⟩
  cases region <;> cases other <;> first | rfl | exact absurd rfl hother

/-- A read of any region adds one to the reads. -/
theorem reads_count_read (region : Region) (c : Counters) :
    (c.count region Tally.read).reads = c.reads + 1 := by
  cases region <;> simp only [count, Tally.read, reads] <;> ac_rfl

theorem writes_count_write (region : Region) (c : Counters) :
    (c.count region Tally.write).writes = c.writes + 1 := by
  cases region <;> simp only [count, Tally.write, writes] <;> ac_rfl

theorem reads_count_write (region : Region) (c : Counters) :
    (c.count region Tally.write).reads = c.reads := by
  cases region <;> rfl

theorem writes_count_read (region : Region) (c : Counters) :
    (c.count region Tally.read).writes = c.writes := by
  cases region <;> rfl

end Counters

namespace Bus

/-! ## One access -/

/-- A part of the bus that a write can change. -/
inductive Part
  | ram (cell : Fin 2048)
  | sound
  | cartridge
  deriving DecidableEq, Repr

/-- The part that a write to an address can change, if any. -/
def Part.of? (addr : UInt16) : Option Part :=
  if addr < 0x2000 then some (.ram (ramCell addr))
  else if 0x4000 ≤ addr ∧ addr ≤ 0x4013 ∨ addr = 0x4015 ∨ addr = 0x4017 then some .sound
  else if 0x4020 ≤ addr then some .cartridge
  else none

/-- Write to a part of the bus. -/
def Part.write (addr : UInt16) (value : UInt8) (b : Bus) : Part → Bus
  | ram cell => { b with ram := b.ram.set cell value cell.isLt }
  | sound => { b with apu := b.apu.write addr value }
  | cartridge => { b with cartridge := b.cartridge.map (·.write addr value) }

/-- What becomes of a bus by a write: the part that the address names, and no other. -/
structure Written (addr : UInt16) (value : UInt8) (b e : Bus) : Prop where
  ram : ∀ cell : Fin 2048,
    e.ram.get cell = if Part.of? addr = some (.ram cell) then value else b.ram.get cell
  apu : e.apu = if Part.of? addr = some .sound then b.apu.write addr value else b.apu
  cartridge : e.cartridge =
    if Part.of? addr = some .cartridge then b.cartridge.map (·.write addr value) else b.cartridge
  counters : b.counters.Counted (.of addr) Tally.write e.counters

/-- What becomes of a bus by a read: nothing, unless the interrupt is acknowledged. -/
structure Looked (addr : UInt16) (b e : Bus) : Prop where
  ram : e.ram = b.ram
  apu : e.apu =
    if addr = 0x4015 then
      { b.apu with sequencer := { b.apu.sequencer with irqFlag := false } }
    else b.apu
  cartridge : e.cartridge = b.cartridge
  counters : b.counters.Counted (.of addr) Tally.read e.counters

/-- The addresses of RAM that name a cell agree in their lower eleven bits. -/
theorem val_ramCell (addr : UInt16) : (ramCell addr).val = (addr &&& 0x07FF).toNat := by
  rw [UInt16.toNat_and]
  exact (Nat.and_two_pow_sub_one_eq_mod addr.toNat 11).symm

/-- Where no register of the audio unit can be written, nothing is. -/
theorem write_elsewhere {addr : UInt16} (hpart : Part.of? addr = none) (a : Sound.Apu)
    (value : UInt8) : a.write addr value = a := by
  unfold Sound.Apu.write
  split
  case h_17 => rfl
  all_goals cases hpart

/-- The part that a write can change lies in the region of its address. -/
theorem Part.of?_eq (addr : UInt16) :
    match Region.of addr with
    | .ram => of? addr = some (.ram (ramCell addr))
    | .picture => of? addr = none
    | .audio => of? addr = some .sound ∨ of? addr = none
    | .cartridge => of? addr = some .cartridge := by
  unfold Region.of of?
  simp only [UInt16.lt_iff_toNat_lt, UInt16.le_iff_toNat_le, ← UInt16.toNat_inj, UInt16.reduceToNat]
  split_ifs <;> first | rfl | exact .inl rfl | exact .inr rfl | omega

/-- A write is counted and goes to the part that its address names. -/
theorem write_eq (addr : UInt16) (value : UInt8) (b : Bus) :
    AddressSpace.write addr value b =
      (Part.of? addr).elim (b.count addr Tally.write)
        (Part.write addr value (b.count addr Tally.write)) := by
  change (b.count addr Tally.write).store addr value = _
  generalize b.count addr Tally.write = b
  have hpart := Part.of?_eq addr
  cases hregion : Region.of addr with
  | ram | picture | cartridge =>
    simp only [hregion] at hpart
    simp only [store, hregion, hpart]
    rfl
  | audio =>
    simp only [hregion] at hpart
    simp only [store, hregion]
    -- in the region of the audio unit there are addresses without a register
    rcases hpart with hpart | hpart
    · rw [hpart]
      rfl
    · rw [hpart, write_elsewhere hpart]
      rfl

/-- A read is counted and acknowledges the interrupt, if it is one of the status register; no board
is changed by being read. -/
theorem snd_read (addr : UInt16) (b : Bus) :
    (AddressSpace.read addr b).2 =
      { b.count addr Tally.read with
        apu := if addr = statusRegister then b.apu.readStatus.2 else b.apu } := by
  change ((b.count addr Tally.read).fetch addr).2 = _
  by_cases haddr : addr = statusRegister
  · subst haddr
    rfl
  · rw [if_neg haddr]
    unfold fetch
    split
    · rfl
    · rfl
    · rw [if_neg haddr]
      rfl
    · split <;> rfl

/-- A write is counted where its address lies, before anything else. -/
theorem counters_write (addr : UInt16) (value : UInt8) (b : Bus) :
    (AddressSpace.write addr value b).counters = b.counters.count (.of addr) Tally.write := by
  rw [write_eq]
  rcases Part.of? addr with _ | _ | _ | _ <;> rfl

/-- So is a read. -/
theorem counters_read (addr : UInt16) (b : Bus) :
    (AddressSpace.read addr b).2.counters = b.counters.count (.of addr) Tally.read := by
  rw [snd_read]
  rfl

/-- What a write does. -/
theorem written_write (addr : UInt16) (value : UInt8) (b : Bus) :
    Written addr value b (AddressSpace.write addr value b) := by
  constructor
  case counters =>
    rw [counters_write]
    exact Counters.counted_count ..
  all_goals rw [write_eq]
  case ram =>
    intro other
    -- only a write to RAM can reach a cell, and then only the one it names
    rcases Part.of? addr with _ | cell | _ | _
    case some.ram =>
      change (b.ram.set cell value)[other.val] = _
      rw [Vector.getElem_set]
      simp only [Option.some.injEq, Part.ram.injEq, Fin.ext_iff]
      rfl
    all_goals rfl
  all_goals rcases Part.of? addr with _ | _ | _ | _ <;> rfl

/-- What a read does. -/
theorem looked_read (addr : UInt16) (b : Bus) : Looked addr b (AddressSpace.read addr b).2 := by
  rw [snd_read]
  exact ⟨rfl, rfl, rfl, Counters.counted_count ..⟩

/-- A read of RAM gives the cell that the address names. -/
theorem read_ram {addr : UInt16} (h : addr < 0x2000) (b : Bus) :
    (AddressSpace.read addr b).1 = b.ram.get (ramCell addr) := by
  have hregion : Region.of addr = .ram := if_pos h
  change ((b.count addr Tally.read).fetch addr).1 = _
  simp only [fetch, hregion]
  rfl

/-! ## Runs -/

/-- Something that is asked of a bus: an access of the processor or of the picture unit, a clock, or
a move of the audio unit. -/
inductive Request
  | read (addr : UInt16)
  | write (addr : UInt16) (value : UInt8)
  | patternRead (addr : UInt16)
  | patternWrite (addr : UInt16) (value : UInt8)
  | tick (cycles : Nat)
  | scanline
  | sound (m : Sound.Apu.Move)

namespace Request

/-- The request reads for the processor. -/
def reads : Request → Bool
  | .read _ => true
  | _ => false

/-- The request writes for the processor. -/
def writes : Request → Bool
  | .write _ _ => true
  | _ => false

/-- The request reads for the processor, and not the status register. -/
def probes : Request → Bool
  | .read addr => addr != 0x4015
  | _ => false

/-- What the request writes to a cell of RAM, if it does. -/
def stored? (cell : Fin 2048) : Request → Option UInt8
  | .write addr value => if Part.of? addr = some (.ram cell) then some value else none
  | _ => none

/-- What was written last to a cell that held `start`. -/
def lastStored (cell : Fin 2048) (start : UInt8) (past : List Request) : UInt8 :=
  (past.filterMap (stored? cell)).getLast?.getD start

end Request

/-- The answer to a request, if it has one, and the bus after it. -/
def serve (b : Bus) : Request → Option UInt8 × Bus
  | .read addr =>
    let (value, b) := AddressSpace.read addr b
    (some value, b)
  | .write addr value => (none, AddressSpace.write addr value b)
  | .patternRead addr =>
    let (value, b) := b.chrRead addr
    (some value, b)
  | .patternWrite addr value => (none, b.chrWrite addr value)
  | .tick cycles => (none, b.tick cycles)
  | .scanline => (none, b.clockScanline)
  | .sound m => (none, { b with apu := b.apu.moved m })

/-- The bus after some requests. -/
def after (b : Bus) (past : List Request) : Bus := past.foldl (fun b r => (b.serve r).2) b

/-- The answers to some requests. -/
def answers : List Request → Bus → List (Option UInt8)
  | [], _ => []
  | r :: rest, b => (b.serve r).1 :: answers rest (b.serve r).2

section

variable (b : Bus)

/-- A request stores into a cell what it writes there. -/
theorem ram_serve (r : Request) (cell : Fin 2048) :
    (b.serve r).2.ram.get cell = (r.stored? cell).getD (b.ram.get cell) := by
  cases r with
  | read addr => exact congrArg (·.get cell) (looked_read addr b).ram
  | write addr value =>
    change (AddressSpace.write addr value b).ram.get cell = _
    rw [(written_write addr value b).ram, Request.stored?]
    split <;> rfl
  | patternRead addr =>
    change (b.chrRead addr).2.ram.get cell = _
    unfold chrRead
    dsimp only
    split <;> rfl
  | patternWrite | tick | scanline | sound => rfl

/-- After a run, RAM holds what was written last. -/
theorem ram_after (past : List Request) (cell : Fin 2048) :
    (b.after past).ram.get cell = Request.lastStored cell (b.ram.get cell) past := by
  induction past generalizing b with
  | nil => rfl
  | cons r rest ih =>
    change ((b.serve r).2.after rest).ram.get cell = _
    rw [ih, ram_serve, Request.lastStored, Request.lastStored]
    cases hstored : r.stored? cell with
    | none =>
      rw [List.filterMap_cons_none hstored]
      rfl
    | some value =>
      rw [List.filterMap_cons_some hstored, List.getLast?_cons]
      rfl

/-- A request is counted as a read or a write, if it is one. -/
theorem counters_serve (r : Request) :
    (b.serve r).2.counters.reads = b.counters.reads + (if r.reads then 1 else 0) ∧
      (b.serve r).2.counters.writes = b.counters.writes + (if r.writes then 1 else 0) := by
  have hsame : b.counters.reads = b.counters.reads + 0 ∧
      b.counters.writes = b.counters.writes + 0 :=
    ⟨(UInt64.add_zero _).symm, (UInt64.add_zero _).symm⟩
  cases r with
  | read addr =>
    change (AddressSpace.read addr b).2.counters.reads = b.counters.reads + 1 ∧
      (AddressSpace.read addr b).2.counters.writes = b.counters.writes + 0
    rw [counters_read, Counters.reads_count_read, Counters.writes_count_read]
    exact ⟨rfl, hsame.2⟩
  | write addr value =>
    change (AddressSpace.write addr value b).counters.reads = b.counters.reads + 0 ∧
      (AddressSpace.write addr value b).counters.writes = b.counters.writes + 1
    rw [counters_write, Counters.reads_count_write, Counters.writes_count_write]
    exact ⟨hsame.1, rfl⟩
  | patternRead addr =>
    change (b.chrRead addr).2.counters.reads = _ ∧ (b.chrRead addr).2.counters.writes = _
    unfold chrRead
    dsimp only
    split <;> exact hsame
  | patternWrite | tick | scanline | sound => exact hsame

/-- The counters of a run count its reads and its writes. -/
theorem counters_after (past : List Request) :
    (b.after past).counters.reads = b.counters.reads + .ofNat (past.countP Request.reads) ∧
      (b.after past).counters.writes =
        b.counters.writes + .ofNat (past.countP Request.writes) := by
  have hcons (p : Request → Bool) (r : Request) (rest : List Request) (n : UInt64) :
      n + (if p r then 1 else 0) + .ofNat (rest.countP p) =
        n + .ofNat ((r :: rest).countP p) := by
    rw [List.countP_cons, UInt64.ofNat_add, UInt64.add_assoc, UInt64.add_comm (.ofNat _)]
    split <;> rfl
  induction past generalizing b with
  | nil => exact ⟨(UInt64.add_zero _).symm, (UInt64.add_zero _).symm⟩
  | cons r rest ih =>
    obtain ⟨hreads, hwrites⟩ := ih (b.serve r).2
    rw [(b.counters_serve r).1, hcons] at hreads
    rw [(b.counters_serve r).2, hcons] at hwrites
    exact ⟨hreads, hwrites⟩

end

/-! ## Nothing looks at the counters -/

/-- What is read does not depend on the counters. -/
theorem fst_fetch_counters (addr : UInt16) (b : Bus) (counters : Counters) :
    (fetch addr { b with counters }).1 = (b.fetch addr).1 := by
  obtain ⟨ram, apu, cartridge, before⟩ := b
  unfold fetch
  split
  · rfl
  · rfl
  · split <;> rfl
  · cases cartridge <;> rfl

/-- Counters do not matter to answers, nor to what is left behind besides them. -/
theorem serve_clearCounters (b : Bus) (r : Request) :
    (b.clearCounters.serve r).1 = (b.serve r).1 ∧
      (b.clearCounters.serve r).2.clearCounters = (b.serve r).2.clearCounters := by
  cases r with
  | read addr =>
    constructor
    · exact congrArg some
        ((fst_fetch_counters addr b _).trans (fst_fetch_counters addr b _).symm)
    · change (AddressSpace.read addr b.clearCounters).2.clearCounters =
        (AddressSpace.read addr b).2.clearCounters
      rw [snd_read, snd_read]
      rfl
  | write addr value =>
    refine ⟨rfl, ?_⟩
    change (AddressSpace.write addr value b.clearCounters).clearCounters =
      (AddressSpace.write addr value b).clearCounters
    rw [write_eq, write_eq]
    rcases Part.of? addr with _ | _ | _ | _ <;> rfl
  | patternRead addr =>
    obtain ⟨ram, apu, cartridge, counters⟩ := b
    cases cartridge <;> exact ⟨rfl, rfl⟩
  | patternWrite | tick | scanline | sound => exact ⟨rfl, rfl⟩

section

variable {b e : Bus}

/-- Buses that differ in the counters at most give the same answers, and go on to differ in the
counters at most. -/
theorem serve_congr (h : b.clearCounters = e.clearCounters) (r : Request) :
    (b.serve r).1 = (e.serve r).1 ∧
      (b.serve r).2.clearCounters = (e.serve r).2.clearCounters := by
  obtain ⟨hb, hbus⟩ := b.serve_clearCounters r
  obtain ⟨he, heus⟩ := e.serve_clearCounters r
  exact ⟨by rw [← hb, h, he], by rw [← hbus, h, heus]⟩

/-- The same holds of a whole run. -/
theorem answers_congr (h : b.clearCounters = e.clearCounters) (later : List Request) :
    answers later b = answers later e := by
  induction later generalizing b e with
  | nil => rfl
  | cons r rest ih =>
    obtain ⟨hanswer, hnext⟩ := serve_congr h r
    rw [answers, answers, hanswer, ih hnext]

theorem after_congr (h : b.clearCounters = e.clearCounters) (later : List Request) :
    (b.after later).clearCounters = (e.after later).clearCounters :=
  List.foldl_rel (r := fun b e : Bus => b.clearCounters = e.clearCounters) h
    fun r _ _ _ h => (serve_congr h r).2

end

/-! ## Probes -/

/-- A probe leaves no trace but in the counters. -/
theorem serve_probe {r : Request} (h : r.probes = true) (b : Bus) :
    (b.serve r).2.clearCounters = b.clearCounters := by
  cases r with
  | read addr =>
    have haddr : addr ≠ statusRegister := bne_iff_ne.mp h
    change (AddressSpace.read addr b).2.clearCounters = _
    rw [snd_read, if_neg haddr]
    rfl
  | write | patternRead | patternWrite | tick | scanline | sound => cases h

/-- A run leads to what it leads to without its probes. -/
theorem after_filter (b : Bus) (past : List Request) :
    (b.after past).clearCounters = (b.after (past.filter (! ·.probes))).clearCounters := by
  unfold after
  rw [List.foldl_filter]
  refine List.foldl_rel (r := fun b e : Bus => b.clearCounters = e.clearCounters) rfl ?_
  intro r _ b e h
  cases hprobes : r.probes with
  | true => exact (serve_probe hprobes b).trans h
  | false => exact (serve_congr h r).2

theorem after_append (b : Bus) (past later : List Request) :
    b.after (past ++ later) = (b.after past).after later := List.foldl_append ..

/-! ## All of it -/

/-- **What an access can reach.**  A write changes at most one part of the bus: below `$2000` a cell
of RAM, which the lower eleven bits of the address name; the audio unit, where a register can be
written; from `$4020` on the cartridge, if there is one.  A read changes nothing, but that of the
status register acknowledges the frame interrupt.  Either is counted in one counter, whatever the
cartridge.

So in any run of requests a cell of RAM reads as what was last written to any of its addresses; the
counters of the four regions come to the number of reads and to the number of writes; and two runs
that are the same but for reads, other than of the status register, lead to buses that differ in the
counters at most and give the same answers to whatever comes later. -/
theorem accesses_isolated (b : Bus) :
    (∀ addr value, Written addr value b (AddressSpace.write addr value b)) ∧
    (∀ addr, Looked addr b (AddressSpace.read addr b).2) ∧
    (∀ addr, (ramCell addr).val = (addr &&& 0x07FF).toNat) ∧
    ∀ past : List Request,
      (∀ addr : UInt16, addr < 0x2000 → (AddressSpace.read addr (b.after past)).1 =
        Request.lastStored (ramCell addr) (b.ram.get (ramCell addr)) past) ∧
      (b.after past).counters.reads = b.counters.reads + .ofNat (past.countP Request.reads) ∧
      (b.after past).counters.writes = b.counters.writes + .ofNat (past.countP Request.writes) ∧
      ∀ probed : List Request, probed.filter (! ·.probes) = past.filter (! ·.probes) →
        ∀ later : List Request,
          answers later (b.after probed) = answers later (b.after past) ∧
          (b.after (probed ++ later)).clearCounters = (b.after (past ++ later)).clearCounters := by
  refine ⟨fun addr value => written_write addr value b, fun addr => looked_read addr b, val_ramCell,
    fun past => ⟨fun addr haddr => ?_, ?_, ?_, fun probed hprobed later => ?_⟩⟩
  · rw [read_ram haddr, ram_after]
  · exact (b.counters_after past).1
  · exact (b.counters_after past).2
  · have hsame : (b.after probed).clearCounters = (b.after past).clearCounters := by
      rw [after_filter, hprobed, ← after_filter]
    rw [after_append, after_append]
    exact ⟨answers_congr hsame later, after_congr hsame later⟩

/-- A byte is written to RAM and read through another of its addresses, with and without a look at
the cartridge and the picture unit in between. -/
theorem accesses_isolated_mirrored :
    let c : Cartridge :=
      ⟨.mmc1 .powerOn, ⟨#[0xEA], by decide⟩, .zeros 1, true, .zeros 1⟩
    let b : Bus := { powerOn with cartridge := some c }
    let past : List Request := [.write 0x0801 0xAB, .write 0x8000 0x80]
    let probed : List Request :=
      [.read 0x2002, .write 0x0801 0xAB, .read 0x8000, .read 0x0001, .write 0x8000 0x80]
    let later : List Request := [.read 0x1801, .read 0x4015]
    probed.filter (! ·.probes) = past.filter (! ·.probes) ∧ (0x1801 : UInt16) < 0x2000 ∧
      (AddressSpace.read 0x1801 (b.after past)).1 = 0xAB ∧
      (b.after probed).counters.reads = 3 ∧ (b.after probed).counters.writes = 2 ∧
      answers later (b.after probed) = answers later (b.after past) := by
  intro c b past probed later
  obtain ⟨-, -, -, hruns⟩ := accesses_isolated b
  obtain ⟨hram, -, -, hprobed⟩ := hruns past
  obtain ⟨-, hreads, hwrites, -⟩ := hruns probed
  exact ⟨rfl, by decide, (hram 0x1801 (by decide)).trans rfl, hreads.trans rfl, hwrites.trans rfl,
    (hprobed probed rfl later).1⟩

end Bus

end Famicom
