import Famicom.Proofs.Cartridge.ScanlineCounter
import Mathlib.Data.List.DropRight
import Mathlib.Tactic.SplitIfs

/-!
# The filter on address line 12

MMC3 clocks its scanline counter when address line 12 rises after having been low for a while.  It
remembers the last level and how many fetches the line has been low, up to the 255 that a byte
holds.  Told from the whole history of fetches, the line rises at a fetch that is high and comes
right after a maximal run of at least eight low ones; how much longer the run is does not matter,
and neither does what else is done with the cartridge meanwhile.

* `RisesAt`, `risesAt_iff` — a rise, in terms of the runs in the history.
* `Filtered.observe` — what the filter remembers of the history.
* `clocks_at_rises` — a cartridge from power-on, whatever is done with it.
-/

namespace Famicom

namespace Board.Mmc3

/-! ## Rises -/

/-- The maximal run of low fetches at the end. -/
def lowRun (fetches : List UInt16) : List UInt16 := fetches.rtakeWhile lineLow

/-- A fetch that comes after others is high and directly follows a long enough run of low ones. -/
def rising (before : List UInt16) (addr : UInt16) : Bool :=
  !lineLow addr && decide (8 ≤ (lowRun before).length)

/-- The line rises at the fetch with the given number. -/
def risesAt (fetches : List UInt16) (j : Nat) : Bool := fetches[j]?.any (rising (fetches.take j))

/-- The number of fetches at which the line rises. -/
def rises (fetches : List UInt16) : Nat := (List.range fetches.length).countP (risesAt fetches)

theorem lowRun_append {start lows : List UInt16} (hlows : ∀ addr ∈ lows, lineLow addr = true)
    (hstart : ∀ addr ∈ start.getLast?, lineLow addr = false) : lowRun (start ++ lows) = lows := by
  induction lows using List.reverseRecOn with
  | nil =>
    rw [List.append_nil]
    refine List.rtakeWhile_eq_nil_iff.mpr fun hne => ?_
    rw [hstart _ (List.getLast?_eq_some_getLast hne)]
    exact Bool.false_ne_true
  | append_singleton lows addr ih =>
    have hlast : lineLow addr = true := hlows addr (by simp)
    rw [← List.append_assoc, lowRun, List.rtakeWhile_concat_pos _ _ _ hlast]
    exact congrArg (· ++ [addr]) (ih fun a ha => hlows a (List.mem_append_left _ ha))

/-- The fetch with the given number is high, and right before it comes a run of at least eight low
ones that cannot be extended to the left. -/
def RisesAt (fetches : List UInt16) (j : Nat) : Prop :=
  ∃ start lows addr rest,
    fetches = start ++ lows ++ addr :: rest ∧ start.length + lows.length = j ∧
    lineLow addr = false ∧ (∀ a ∈ lows, lineLow a = true) ∧
    (∀ a ∈ start.getLast?, lineLow a = false) ∧ 8 ≤ lows.length

/-- A rise, told from the history as a whole. -/
theorem risesAt_iff {fetches : List UInt16} {j : Nat} :
    risesAt fetches j = true ↔ RisesAt fetches j := by
  constructor
  · intro h
    unfold risesAt at h
    cases haddr : fetches[j]? with
    | none =>
      rw [haddr] at h
      cases h
    | some addr =>
      rw [haddr, Option.any_some, rising, Bool.and_eq_true, Bool.not_eq_true',
        decide_eq_true_eq] at h
      obtain ⟨hlt, hget⟩ := List.getElem?_eq_some_iff.mp haddr
      have hsplit : (fetches.take j).rdropWhile lineLow ++ lowRun (fetches.take j) =
          fetches.take j := List.rdropWhile_append_rtakeWhile ..
      refine ⟨(fetches.take j).rdropWhile lineLow, lowRun (fetches.take j), addr,
        fetches.drop (j + 1), ?_, ?_, h.1, fun a ha => List.mem_rtakeWhile_imp ha, ?_, h.2⟩
      · rw [hsplit, ← hget, ← List.drop_eq_getElem_cons hlt, List.take_append_drop]
      · rw [← List.length_append, hsplit, List.length_take, Nat.min_eq_left (Nat.le_of_lt hlt)]
      · intro a ha
        obtain ⟨hne, rfl⟩ := List.mem_getLast?_eq_getLast ha
        exact Bool.not_eq_true _ ▸ List.rdropWhile_last_not _ _ hne
  · rintro ⟨start, lows, addr, rest, rfl, rfl, hhigh, hlows, hstart, hlength⟩
    have hget : (start ++ lows ++ addr :: rest)[start.length + lows.length]? = some addr := by
      rw [← List.length_append, List.getElem?_append_right (Nat.le_refl _), Nat.sub_self]
      rfl
    unfold risesAt rising
    rw [hget, ← List.length_append, List.take_left, Option.any_some, hhigh,
      lowRun_append hlows hstart]
    exact decide_eq_true hlength

/-- What comes after a fetch does not matter to whether the line rises at it. -/
theorem risesAt_append_cons (before : List UInt16) (addr : UInt16) (after : List UInt16) :
    risesAt (before ++ addr :: after) before.length = rising before addr := by
  unfold risesAt
  rw [List.getElem?_append_right (Nat.le_refl _), Nat.sub_self, List.take_left]
  rfl

/-- One more fetch. -/
theorem rises_concat (fetches : List UInt16) (addr : UInt16) :
    rises (fetches ++ [addr]) = rises fetches + (rising fetches addr).toNat := by
  have hearlier : ∀ j ∈ List.range fetches.length,
      risesAt (fetches ++ [addr]) j = true ↔ risesAt fetches j = true := by
    intro j hj
    have hlt := List.mem_range.mp hj
    unfold risesAt
    rw [List.getElem?_append_left hlt, List.take_append_of_le_length (Nat.le_of_lt hlt)]
  have hlast := risesAt_append_cons fetches addr []
  unfold rises
  rw [List.length_append, List.length_singleton, List.range_succ, List.countP_append,
    List.countP_congr hearlier, List.countP_singleton, hlast]
  cases rising fetches addr <;> rfl

/-! ## The filter -/

namespace Registers

/-- Apart from what the filter remembers, a fetch that gets through it does what a clock does, and
any other one nothing. -/
theorem exists_observe (r : Registers) (addr : UInt16) : ∃ lowReads, r.observe addr =
    { (if r.accepts addr then r.clockCounter else r) with
      lastA12 := !lineLow addr
      a12LowReads := lowReads } := by
  cases hline : lineLow addr with
  | true =>
    have haccepts : r.accepts addr = false := by
      unfold accepts
      rw [hline]
      rfl
    rw [observe_low r hline, haccepts]
    exact ⟨_, rfl⟩
  | false => exact ⟨_, observe_high r hline⟩

/-- What the filter remembers of the fetches. -/
structure Filtered (past : List UInt16) (r : Registers) : Prop where
  lowReads : r.a12LowReads.toNat = min 255 (lowRun past).length
  last : r.lastA12 = true → lowRun past = []

/-- A fetch gets through the filter when the line rises at it. -/
theorem Filtered.accepts_eq {past : List UInt16} {r : Registers} (h : Filtered past r)
    (addr : UInt16) : r.accepts addr = rising past addr := by
  have hreads : filterReads ≤ r.a12LowReads ↔ 8 ≤ (lowRun past).length := by
    rw [UInt8.le_iff_toNat_le, h.lowReads]
    show 8 ≤ min 255 _ ↔ _
    omega
  unfold accepts rising
  rw [decide_eq_decide.mpr hreads]
  cases hlast : r.lastA12 with
  | true =>
    have hshort : ¬8 ≤ (lowRun past).length := by
      rw [h.last hlast]
      decide
    rw [decide_eq_false hshort, Bool.and_false, Bool.and_false]
  | false => rw [Bool.not_false, Bool.and_true]

/-- **One fetch.** -/
theorem Filtered.observe {past : List UInt16} {r : Registers} (h : Filtered past r)
    (addr : UInt16) : Filtered (past ++ [addr]) (r.observe addr) := by
  by_cases hline : lineLow addr = true
  · have hrun : lowRun (past ++ [addr]) = lowRun past ++ [addr] :=
      List.rtakeWhile_concat_pos _ _ _ hline
    rw [observe_low r hline]
    refine ⟨?_, fun hlast => nomatch hlast⟩
    have hreads := h.lowReads
    rw [hrun, List.length_append, List.length_singleton]
    show (if r.a12LowReads = 0xFF then (0xFF : UInt8) else r.a12LowReads + 1).toNat = _
    split
    · next hfull =>
      rw [hfull] at hreads
      change 255 = _ at hreads ⊢
      omega
    · next hroom =>
      have hlt : r.a12LowReads.toNat < 255 :=
        Nat.lt_of_le_of_ne (Nat.le_of_lt_succ r.a12LowReads.toNat_lt) fun heq =>
          hroom (UInt8.toNat_inj.mp heq)
      have hsum : r.a12LowReads.toNat + (1 : UInt8).toNat < 2 ^ 8 := Nat.succ_lt_succ hlt
      rw [UInt8.toNat_add, Nat.mod_eq_of_lt hsum]
      show r.a12LowReads.toNat + 1 = _
      omega
  · have hrun : lowRun (past ++ [addr]) = [] := List.rtakeWhile_concat_neg _ _ _ hline
    rw [observe_high r (Bool.not_eq_true _ ▸ hline)]
    exact ⟨hrun.symm ▸ rfl, fun _ => hrun⟩

/-- Neither writes nor clocks change what the filter remembers. -/
theorem Filtered.write {past : List UInt16} {r : Registers} (h : Filtered past r) (addr : UInt16)
    (value : UInt8) : Filtered past (r.write addr value) := by
  have hsame : (r.write addr value).a12LowReads = r.a12LowReads ∧
      (r.write addr value).lastA12 = r.lastA12 := by
    unfold Registers.write
    dsimp only
    split_ifs <;> exact ⟨rfl, rfl⟩
  exact ⟨hsame.1 ▸ h.lowReads, hsame.2 ▸ h.last⟩

end Registers

end Board.Mmc3

/-! ## Histories -/

namespace Cartridge

open Board.Mmc3

/-- The address of a fetch. -/
def Operation.fetch? : Operation → Option UInt16
  | .act (.observe addr) => some addr
  | _ => none

/-- The operation lets a scanline pass. -/
def Operation.isScanline : Operation → Bool
  | .act .clockScanline => true
  | _ => false

/-- The fetches among operations. -/
def fetches (ops : List Operation) : List UInt16 := ops.filterMap Operation.fetch?

/-- A run with scanlines in the place of the fetches at which the line rises, and without the other
fetches. -/
def asScanlines : List UInt16 → List Operation → List Operation
  | _, [] => []
  | before, op :: rest =>
    match op.fetch? with
    | some addr =>
      (if rising before addr then [.act .clockScanline] else []) ++
        asScanlines (before ++ [addr]) rest
    | none => op :: asScanlines before rest

/-- An MMC3 cartridge that has seen the fetches. -/
def Watched (past : List UInt16) (c : Cartridge) : Prop :=
  ∃ b, c.board = .mmc3 b ∧ b.regs.Filtered past

theorem Watched.timer? {past : List UInt16} {c : Cartridge} (h : Watched past c) :
    ∃ t, c.timer? = some t := by
  obtain ⟨b, hboard, -⟩ := h
  exact ⟨_, timer?_eq_some_iff.mpr ⟨b, hboard, rfl⟩⟩

theorem Operation.eq_observe {op : Operation} {addr : UInt16} (h : op.fetch? = some addr) :
    op = .act (.observe addr) := by
  cases op with
  | act a => cases a <;> cases h; rfl
  | _ => cases h

/-- An MMC3 cartridge is clocked by an operation that is no fetch exactly if it is a scanline. -/
theorem clocksCounter_of_not_fetch {c : Cartridge} {t : Timer} (h : c.timer? = some t)
    {op : Operation} (hop : op.fetch? = none) : c.clocksCounter op = op.isScanline := by
  obtain ⟨b, hboard, -⟩ := timer?_eq_some_iff.mp h
  rw [clocksCounter, hboard]
  cases op with
  | act a =>
    cases a with
    | observe addr => cases hop
    | _ => rfl
  | _ => rfl

section

variable {past : List UInt16} {c : Cartridge}

/-- **One operation that is no fetch.** -/
theorem Watched.operate (h : Watched past c) {op : Operation} (hop : op.restores = false)
    (hfetch : op.fetch? = none) : Watched past (c.operate op).2 := by
  obtain ⟨b, hboard, hfiltered⟩ := h
  refine ⟨{ b with regs := b.regs.operated op }, ?_, ?_⟩
  · rw [c.board_operate hop, hboard, operated_eq]
  · cases op with
    | act a =>
      cases a with
      | write addr value =>
        show (if addr < Image.romStart then b.regs else b.regs.write addr value).Filtered past
        split
        · exact hfiltered
        · exact hfiltered.write addr value
      | observe addr => cases hfetch
      | clockScanline => exact ⟨hfiltered.lowReads, hfiltered.last⟩
      | _ => exact hfiltered
    | _ => exact hfiltered

/-- **One fetch.**  It clocks the counter when the line rises at it. -/
theorem Watched.observe (h : Watched past c) (addr : UInt16) :
    Watched (past ++ [addr]) (c.observe addr) ∧
      c.clocksCounter (.act (.observe addr)) = rising past addr := by
  obtain ⟨b, hboard, hfiltered⟩ := h
  refine ⟨⟨{ b with regs := b.regs.observe addr }, ?_, hfiltered.observe addr⟩, ?_⟩
  · show c.board.observe addr = _
    rw [hboard]
    rfl
  · rw [clocksCounter, hboard]
    exact hfiltered.accepts_eq addr

/-- The history of a whole run. -/
theorem Watched.run (h : Watched past c) {ops : List Operation}
    (hops : ∀ op ∈ ops, op.restores = false) : Watched (past ++ fetches ops) (c.run ops).2 := by
  induction ops generalizing past c with
  | nil =>
    rw [fetches, List.filterMap_nil, List.append_nil]
    exact h
  | cons op rest ih =>
    obtain ⟨hop, hrest⟩ := List.forall_mem_cons.mp hops
    cases hfetch : op.fetch? with
    | some addr =>
      cases Operation.eq_observe hfetch
      have hstep := ih (h.observe addr).1 hrest
      rw [List.append_assoc] at hstep
      exact hstep
    | none =>
      have hfetches : fetches (op :: rest) = fetches rest := List.filterMap_cons_none hfetch
      rw [hfetches]
      exact ih (h.operate hop hfetch) hrest

/-- Clocks add up to rises and scanlines, by induction over the run with the fetches before it. -/
theorem Watched.counterClocks_eq (h : Watched past c) {ops : List Operation}
    (hops : ∀ op ∈ ops, op.restores = false) :
    rises past + c.counterClocks ops =
      rises (past ++ fetches ops) + ops.countP Operation.isScanline := by
  induction ops generalizing past c with
  | nil => rw [fetches, List.filterMap_nil, List.append_nil]; rfl
  | cons op rest ih =>
    obtain ⟨hop, hrest⟩ := List.forall_mem_cons.mp hops
    cases hfetch : op.fetch? with
    | some addr =>
      cases Operation.eq_observe hfetch
      obtain ⟨hwatched, hclocks⟩ := h.observe addr
      have hstep := ih hwatched hrest
      have hcount : c.counterClocks (.act (.observe addr) :: rest) =
          (rising past addr).toNat + (c.observe addr).counterClocks rest := by
        rw [counterClocks, hclocks]
        rfl
      rw [rises_concat, List.append_assoc, Nat.add_assoc, ← hcount] at hstep
      exact hstep
    | none =>
      obtain ⟨t, ht⟩ := h.timer?
      have hstep := ih (h.operate hop hfetch) hrest
      have hcount : c.counterClocks (op :: rest) =
          op.isScanline.toNat + (c.operate op).2.counterClocks rest := by
        rw [counterClocks, clocksCounter_of_not_fetch ht hfetch]
      have hfetches : fetches (op :: rest) = fetches rest := List.filterMap_cons_none hfetch
      rw [hcount, hfetches, List.countP_cons, Nat.add_left_comm, hstep]
      cases op.isScanline with
      | true => exact Nat.add_comm 1 _
      | false => exact Nat.zero_add _

/-- Fetches at which the line rises do to the timer what scanlines do, and others do nothing. -/
theorem Watched.timer?_asScanlines (h : Watched past c) {d : Cartridge}
    (htimer : d.timer? = c.timer?) {ops : List Operation}
    (hops : ∀ op ∈ ops, op.restores = false) :
    (d.run (asScanlines past ops)).2.timer? = (c.run ops).2.timer? := by
  induction ops generalizing past c d with
  | nil => exact htimer
  | cons op rest ih =>
    obtain ⟨hop, hrest⟩ := List.forall_mem_cons.mp hops
    obtain ⟨t, ht⟩ := h.timer?
    have hd := htimer.trans ht
    have hc := timer?_operate ht hop
    cases hfetch : op.fetch? with
    | some addr =>
      cases Operation.eq_observe hfetch
      obtain ⟨hwatched, hclocks⟩ := h.observe addr
      rw [hclocks] at hc
      show (d.run ((if rising past addr then [.act .clockScanline] else []) ++
        asScanlines (past ++ [addr]) rest)).2.timer? = ((c.observe addr).run rest).2.timer?
      rw [run_append]
      -- What stands in the place of the fetch leaves the same timer, which is all that is compared.
      refine ih hwatched ?_ hrest
      split
      · next hrises =>
        rw [hrises, if_pos rfl] at hc
        have hplain : Operation.restores (.act .clockScanline) = false := rfl
        have hline := timer?_operate hd hplain
        rw [clocksCounter_of_not_fetch hd rfl] at hline
        exact hline.trans hc.symm
      · next hflat =>
        rw [if_neg hflat] at hc
        exact hd.trans hc.symm
    | none =>
      have hsame : asScanlines past (op :: rest) = op :: asScanlines past rest := by
        rw [asScanlines, hfetch]
      rw [clocksCounter_of_not_fetch ht hfetch, ← clocksCounter_of_not_fetch hd hfetch,
        ← timer?_operate hd hop] at hc
      rw [hsame]
      exact ih (h.operate hop hfetch) hc.symm hrest

/-- A fetch somewhere in a run clocks the counter if the line rises at it, and otherwise changes
nothing but what the filter remembers. -/
theorem Watched.fetched (h : Watched [] c) {before after : List Operation} {addr : UInt16}
    (hops : ∀ op ∈ before, op.restores = false) :
    let ops := before ++ .act (.observe addr) :: after
    ∃ b lowReads, (c.run before).2.board = .mmc3 b ∧
      (c.run (before ++ [.act (.observe addr)])).2.board = .mmc3 { b with
        regs := {
          (if risesAt (fetches ops) (fetches before).length then b.regs.clockCounter
            else b.regs) with
          lastA12 := !lineLow addr
          a12LowReads := lowReads } } := by
  intro ops
  obtain ⟨b, hboard, hfiltered⟩ := h.run hops
  obtain ⟨lowReads, hobserve⟩ := b.regs.exists_observe addr
  have hfetches : fetches ops = fetches before ++ addr :: fetches after := by
    rw [fetches, List.filterMap_append]
    rfl
  have hrises : risesAt (fetches ops) (fetches before).length = b.regs.accepts addr := by
    rw [hfetches, risesAt_append_cons]
    exact (hfiltered.accepts_eq addr).symm
  refine ⟨b, lowReads, hboard, ?_⟩
  rw [run_append, hrises]
  change (c.run before).2.board.observe addr = _
  rw [hboard, ← hobserve]
  rfl

end

/-- **Address line 12.**  However long a cartridge has been played with from power-on, short of
putting a saved state in, its counter got one clock for each scanline and one for each fetch at
which the line rises, which is where it is high right after a maximal run of at least eight low
fetches.  Such a fetch does what a clock of the counter does, and no other fetch touches anything
but what the filter remembers.  Writes and reads between the fetches do not matter to that.  And
the counter and its interrupt are as if scanlines had been in the place of those fetches. -/
theorem clocks_at_rises {i : Image} (hmapper : i.mapper = 4) {made : Cartridge}
    (hmade : ofImage i = .ok made) {ops : List Operation}
    (hops : ∀ op ∈ ops, op.restores = false) :
    made.counterClocks ops = rises (fetches ops) + ops.countP Operation.isScanline ∧
    (∀ j, risesAt (fetches ops) j = true ↔ RisesAt (fetches ops) j) ∧
    (∀ before addr after, ops = before ++ .act (.observe addr) :: after →
      ∃ b lowReads, (made.run before).2.board = .mmc3 b ∧
        (made.run (before ++ [.act (.observe addr)])).2.board = .mmc3 { b with
          regs := {
            (if risesAt (fetches ops) (fetches before).length then b.regs.clockCounter
              else b.regs) with
            lastA12 := !lineLow addr
            a12LowReads := lowReads } }) ∧
    ∃ t, (made.run ops).2.timer? = some t ∧
      (made.run (asScanlines [] ops)).2.timer? = some t := by
  have hboard : made.board = .mmc3 (.powerOn i) := by
    rw [board_ofImage hmade, Board.powerOn, hmapper]
    rfl
  have hwatched : Watched [] made :=
    ⟨_, hboard, ⟨rfl, fun hlast => nomatch hlast⟩⟩
  have hclocks := hwatched.counterClocks_eq hops
  have hnone : rises [] = 0 := rfl
  rw [hnone, Nat.zero_add, List.nil_append] at hclocks
  refine ⟨hclocks, fun _ => risesAt_iff, ?_, ?_⟩
  · rintro before addr after rfl
    exact hwatched.fetched fun op hmem => hops op (List.mem_append_left _ hmem)
  · obtain ⟨t, ht⟩ := (hwatched.run hops).timer?
    exact ⟨t, ht, (hwatched.timer?_asScanlines rfl hops).trans ht⟩

/-- The line is low for 256 fetches, with a write of the latch halfway, and rises; then it is low
for seven more and rises again, which does not count. -/
theorem clocks_at_rises_long :
    let low (n : Nat) : List Operation := List.replicate n (.act (.observe 0x0FF0))
    let high : Operation := .act (.observe 0x1FF0)
    let ops := low 128 ++ .act (.write 0xC000 7) :: low 128 ++ high :: low 7 ++ [high]
    ∃ made, ofImage { copier with mapper := 4 } = .ok made ∧ made.counterClocks ops = 1 := by
  intro low high ops
  refine ⟨_, rfl, ?_⟩
  have hops : ∀ op ∈ ops, op.restores = false := by decide +kernel
  have hclocks := (clocks_at_rises (i := { copier with mapper := 4 }) rfl rfl hops).1
  exact hclocks.trans (by decide +kernel)

end Cartridge

end Famicom
