import Famicom.Proofs.Console.Resume
import Famicom.Proofs.Sound.Safety

/-!
# Remembered samples cannot be heard

The audio unit remembers samples that it has mixed and gives them again when the same levels come
up.  What is remembered was mixed by the law in force, and four levels of four bits can be told from
their key.  So a unit that remembers gives every sample that a unit would give which mixes each one
anew.

* `Levels.ofKey_key` — no two levels in range share a key.
* `MixMemo.Faithful` — what is remembered is what would be mixed.
* `Apu.Faithful.sample`, `Apu.Faithful.hear` — pulling a sample, and every run of uses.
* `Console.samples_mixed_anew` — runs from power-on, and runs from a restored snapshot.
-/

namespace Famicom

namespace Sound

/-! ## Keys -/

/-- The low four bits of a level in range are all of it. -/
theorem toNat_nibble {level : UInt8} (h : level ≤ 15) : (nibble level).toNat = level.toNat := by
  have hlt : level.toUInt16.toNat < 2 ^ 4 := by
    rw [UInt8.toNat_toUInt16]
    exact Nat.lt_succ_of_le (UInt8.le_iff_toNat_le.mp h)
  rw [nibble, word_mask_eq 4 rfl hlt, UInt8.toNat_toUInt16]

/-- A nibble that is shifted past what stands below it adds to that. -/
theorem toNat_or_shiftLeft {lo hi : UInt16} (shift : UInt16) (k : Nat)
    (hshift : shift.toNat = k) (hk : k ≤ 12) (hlo : lo.toNat < 2 ^ k) (hhi : hi.toNat < 2 ^ 4) :
    (lo ||| hi <<< shift).toNat = lo.toNat + hi.toNat * 2 ^ k := by
  have hfits : hi.toNat * 2 ^ k < 2 ^ 16 :=
    calc hi.toNat * 2 ^ k
      _ < 2 ^ 4 * 2 ^ k := Nat.mul_lt_mul_of_pos_right hhi (Nat.two_pow_pos k)
      _ = 2 ^ (4 + k) := (Nat.pow_add ..).symm
      _ ≤ 2 ^ 16 := Nat.pow_le_pow_right (by decide) (by omega)
  have hmod : k % 16 = k := Nat.mod_eq_of_lt (by omega)
  rw [UInt16.toNat_or, UInt16.toNat_shiftLeft, hshift, hmod, Nat.shiftLeft_eq,
    Nat.mod_eq_of_lt hfits, ← Nat.shiftLeft_eq, Nat.or_comm, ← Nat.shiftLeft_add_eq_or_of_lt hlo,
    Nat.shiftLeft_eq, Nat.add_comm]

namespace Levels

/-- The levels that a key was packed from. -/
def ofKey (key : UInt16) : Levels :=
  ⟨UInt8.ofNat (key.toNat % 16), UInt8.ofNat (key.toNat / 16 % 16),
    UInt8.ofNat (key.toNat / 256 % 16), UInt8.ofNat (key.toNat / 4096)⟩

/-- The nibbles of a key stand one past the other. -/
theorem toNat_key {l : Levels} (h : l.InRange) : l.key.toNat =
    l.pulse1.toNat + l.pulse2.toNat * 2 ^ 4 + l.triangle.toNat * 2 ^ 8 + l.noise.toNat * 2 ^ 12 ∧
      l.pulse1.toNat < 16 ∧ l.pulse2.toNat < 16 ∧ l.triangle.toNat < 16 ∧ l.noise.toNat < 16 := by
  have hnibble {level : UInt8} (hlevel : level ≤ 15) :
      (nibble level).toNat = level.toNat ∧ (nibble level).toNat < 2 ^ 4 := by
    rw [toNat_nibble hlevel]
    exact ⟨rfl, Nat.lt_succ_of_le (UInt8.le_iff_toNat_le.mp hlevel)⟩
  obtain ⟨hpulse1, hlt1⟩ := hnibble h.pulse1
  obtain ⟨hpulse2, hlt2⟩ := hnibble h.pulse2
  obtain ⟨htriangle, hlt3⟩ := hnibble h.triangle
  obtain ⟨hnoise, hlt4⟩ := hnibble h.noise
  have htwo := toNat_or_shiftLeft 4 4 rfl (by decide) hlt1 hlt2
  have hthree := toNat_or_shiftLeft 8 8 rfl (by decide) (by rw [htwo]; omega) hlt3
  have hfour := toNat_or_shiftLeft 12 12 rfl (by decide) (by rw [hthree]; omega) hlt4
  unfold key
  omega

/-- Levels in range can be told from their key. -/
theorem ofKey_key {l : Levels} (h : l.InRange) : ofKey l.key = l := by
  obtain ⟨hkey, hpulse1, hpulse2, htriangle, hnoise⟩ := toNat_key h
  have hdigit (n : Nat) (level : UInt8) (hn : n = level.toNat) : UInt8.ofNat n = level := by
    rw [hn, UInt8.ofNat_toNat]
  unfold ofKey
  rw [hdigit (l.key.toNat % 16) l.pulse1 (by omega),
    hdigit (l.key.toNat / 16 % 16) l.pulse2 (by omega),
    hdigit (l.key.toNat / 256 % 16) l.triangle (by omega),
    hdigit (l.key.toNat / 4096) l.noise (by omega)]

end Levels

/-! ## Remembering -/

namespace MixMemo

/-- What is remembered was mixed by a law from the levels that its key was packed from. -/
def Faithful (law : Mixing) (m : MixMemo) : Prop :=
  ∀ (slot : Fin 64) (key : UInt16) (sample : UInt8), m.slots[slot] = some (key, sample) →
    sample = Mixing.quantize (law.mix (.ofKey key))

variable {law : Mixing}

theorem faithful_empty (law : Mixing) : empty.Faithful law := by
  intro slot key sample h
  have hnone : empty.slots[slot] = none := Vector.getElem_replicate slot.isLt
  cases hnone.symm.trans h

/-- What is mixed from levels in range may be remembered under their key. -/
theorem Faithful.remember {m : MixMemo} (h : m.Faithful law) (slot : Fin 64) {l : Levels}
    (hl : l.InRange) :
    MixMemo.Faithful law ⟨m.slots.set slot (some (l.key, Mixing.quantize (law.mix l)))⟩ := by
  intro other key sample hother
  change (m.slots.set slot _)[other.val] = _ at hother
  by_cases hslot : slot.val = other.val
  · rw [Vector.getElem_set, if_pos hslot] at hother
    cases hother
    rw [Levels.ofKey_key hl]
  · rw [Vector.getElem_set, if_neg hslot] at hother
    exact h other key sample hother

/-- A faithful memory gives the sample that would be mixed, and stays faithful. -/
theorem Faithful.sample {m : MixMemo} (h : m.Faithful law) {l : Levels} (hl : l.InRange) :
    (m.sample law l).1 = Mixing.quantize (law.mix l) ∧ (m.sample law l).2.Faithful law := by
  unfold MixMemo.sample
  dsimp only
  split
  case h_2 => exact ⟨rfl, h.remember _ hl⟩
  next remembered sample hslot =>
  split
  case isFalse => exact ⟨rfl, h.remember _ hl⟩
  next hkey =>
  have hsample := h _ _ _ hslot
  rw [hkey, Levels.ofKey_key hl] at hsample
  exact ⟨hsample, h⟩

end MixMemo

namespace Apu

/-! ## Units without a memory -/

/-- The unit with nothing remembered. -/
def forget (a : Apu) : Apu := { a with memo := .empty }

/-- Run the timers up to the next sample and mix it, without looking for it in memory. -/
def sampleAnew (a : Apu) : UInt8 × Apu :=
  let (clocks, a) := a.accrue
  let a := runTimers clocks a
  (Mixing.quantize (a.mixing.mix a.levels), a)

/-- Append `n` samples to a buffer, each of them mixed anew. -/
def samplesAnewOnto (buffer : Array UInt8) : Nat → Apu → Array UInt8 × Apu
  | 0, a => (buffer, a)
  | n + 1, a =>
    let (sample, a) := a.sampleAnew
    samplesAnewOnto (buffer.push sample) n a

/-- The next `n` samples, each of them mixed anew. -/
def samplesAnew (n : Nat) (a : Apu) : Array UInt8 × Apu := samplesAnewOnto #[] n a

/-! ## Nothing but pulling samples looks at the memory -/

theorem forget_clockTimers (a : Apu) : a.clockTimers.forget = a.forget.clockTimers := by
  unfold clockTimers
  change _ = if a.cpuCycle + 1 &&& 1 = 0 then _ else _
  dsimp only
  split <;> rfl

theorem forget_runTimers (n : Nat) (a : Apu) :
    (a.runTimers n).forget = a.forget.runTimers n := by
  induction n generalizing a with
  | zero => rfl
  | succ n ih => exact (ih a.clockTimers).trans (congrArg (runTimers n) (forget_clockTimers a))

theorem forget_clockFrame (a : Apu) (clocks : Beat) :
    (a.clockFrame clocks).forget = a.forget.clockFrame clocks := by
  unfold clockFrame
  cases clocks.quarter <;> cases clocks.half <;> rfl

theorem forget_write (a : Apu) (addr : UInt16) (value : UInt8) :
    (a.write addr value).forget = a.forget.write addr value := by
  unfold write
  split
  case h_16 => exact forget_clockFrame { a with sequencer := a.sequencer.writeControl value } _
  all_goals rfl

theorem forget_withMixing (a : Apu) (mixing : Mixing) :
    (a.withMixing mixing).forget = a.forget.withMixing mixing := by
  unfold withMixing
  change _ = if a.mixing = mixing then _ else _
  split <;> rfl

/-! ## Faithful units -/

/-- The channels are in range, and what is remembered was mixed by the law in force. -/
structure Faithful (a : Apu) : Prop where
  inRange : a.channels.InRange
  memo : a.memo.Faithful a.mixing

theorem faithful_powerOn : powerOn.Faithful := ⟨inRange_powerOn, MixMemo.faithful_empty _⟩

theorem faithful_confine (a : Apu) : a.confine.Faithful :=
  ⟨inRange_confine a, MixMemo.faithful_empty _⟩

theorem memo_clockFrame (a : Apu) (clocks : Beat) :
    (a.clockFrame clocks).memo = a.memo ∧ (a.clockFrame clocks).mixing = a.mixing := by
  unfold clockFrame
  cases clocks.quarter <;> cases clocks.half <;> exact ⟨rfl, rfl⟩

theorem memo_write (a : Apu) (addr : UInt16) (value : UInt8) :
    (a.write addr value).memo = a.memo ∧ (a.write addr value).mixing = a.mixing := by
  unfold write
  split
  case h_16 => exact memo_clockFrame { a with sequencer := a.sequencer.writeControl value } _
  all_goals exact ⟨rfl, rfl⟩

theorem memo_runTimers (n : Nat) (a : Apu) :
    (a.runTimers n).memo = a.memo ∧ (a.runTimers n).mixing = a.mixing := by
  induction n generalizing a with
  | zero => exact ⟨rfl, rfl⟩
  | succ n ih =>
    have hclock : a.clockTimers.memo = a.memo ∧ a.clockTimers.mixing = a.mixing := by
      unfold clockTimers
      dsimp only
      split <;> exact ⟨rfl, rfl⟩
    exact ⟨(ih a.clockTimers).1.trans hclock.1, (ih a.clockTimers).2.trans hclock.2⟩

namespace Faithful

variable {a : Apu}

/-- Where memory and law stay, a unit stays faithful. -/
theorem of_memo {b : Apu} (h : a.Faithful) (hrange : b.channels.InRange)
    (hmemo : b.memo = a.memo ∧ b.mixing = a.mixing) : b.Faithful :=
  ⟨hrange, by rw [hmemo.1, hmemo.2]; exact h.memo⟩

theorem withMixing (h : a.Faithful) (mixing : Mixing) : (a.withMixing mixing).Faithful := by
  refine ⟨channels_withMixing a mixing ▸ h.inRange, ?_⟩
  unfold Apu.withMixing
  split
  · exact h.memo
  · exact MixMemo.faithful_empty _

/-- A faithful unit gives the sample that it would mix, and stays faithful. -/
theorem sample (h : a.Faithful) :
    a.sample.1 = Mixing.quantize (a.sample.2.mixing.mix a.sample.2.levels) ∧
      a.forget.sampleAnew = (a.sample.1, a.sample.2.forget) ∧ a.sample.2.Faithful := by
  let b := runTimers a.accrue.1 a.accrue.2
  let mixed := b.memo.sample b.mixing b.levels
  have hsampled : a.sample = (mixed.1, { b with memo := mixed.2 }) := rfl
  have hrange : b.channels.InRange := inRange_runTimers _ (a := a.accrue.2) h.inRange
  have hb : b.Faithful := h.of_memo hrange (memo_runTimers _ a.accrue.2)
  obtain ⟨hsample, hmemo⟩ := hb.memo.sample (inRange_levels hrange)
  have hforget : b.forget = runTimers a.accrue.1 a.accrue.2.forget :=
    forget_runTimers a.accrue.1 a.accrue.2
  have hanew : a.forget.sampleAnew =
      (Mixing.quantize (b.forget.mixing.mix b.forget.levels), b.forget) := by
    rw [hforget]
    rfl
  have hlevels (memo : MixMemo) : levels { b with memo } = b.levels := rfl
  -- the memo changes with a sample, the levels do not
  rw [hsampled]
  dsimp only
  rw [hlevels]
  refine ⟨hsample, ?_, hrange, hmemo⟩
  have hforgotten : Mixing.quantize (b.forget.mixing.mix b.forget.levels) = mixed.1 := by
    rw [hsample, forget, hlevels]
  rw [hanew, hforgotten]
  rfl

theorem samplesOnto (h : a.Faithful) (n : Nat) (buffer : Array UInt8) :
    a.forget.samplesAnewOnto buffer n =
        ((a.samplesOnto buffer n).1, (a.samplesOnto buffer n).2.forget) ∧
      (a.samplesOnto buffer n).2.Faithful := by
  induction n generalizing a buffer with
  | zero => exact ⟨rfl, h⟩
  | succ n ih =>
    obtain ⟨-, hanew, hafter⟩ := h.sample
    rw [samplesAnewOnto, hanew, Apu.samplesOnto]
    exact ih hafter _

end Faithful

/-! ## Runs -/

/-- Something that a host does to a unit: an operation, or confining it as restoring a snapshot
does. -/
inductive Use
  | act (a : Act)
  | confine

/-- What is heard of a use, and the unit after it, where `pull` pulls samples. -/
def used (pull : Nat → Apu → Array UInt8 × Apu) (a : Apu) : Use → Array UInt8 × Apu
  | .act (.samples n) => pull n a
  | .act act => (#[], a.acted act)
  | .confine => (#[], a.confine)

/-- What is heard of a list of uses, and the unit after them. -/
def hear (pull : Nat → Apu → Array UInt8 × Apu) : List Use → Apu → List (Array UInt8) × Apu
  | [], a => ([], a)
  | use :: rest, a =>
    let (heard, a) := a.used pull use
    let (later, a) := hear pull rest a
    (heard :: later, a)

/-- Whatever is done to the unit, each sample is the one that is mixed from the levels of its
moment by the law of its moment: a unit that starts with nothing remembered and never looks into its
memory gives the same samples. -/
def MixesAnew (a : Apu) : Prop :=
  ∀ uses : List Use,
    let (heard, b) := hear samples uses a
    hear samplesAnew uses a.forget = (heard, b.forget) ∧
      b.sample.1 = Mixing.quantize (b.sample.2.mixing.mix b.sample.2.levels)

namespace Faithful

variable {a : Apu}

/-- A faithful unit is heard as one without a memory, and stays faithful. -/
theorem used (h : a.Faithful) (use : Use) :
    a.forget.used samplesAnew use = ((a.used samples use).1, (a.used samples use).2.forget) ∧
      (a.used samples use).2.Faithful := by
  cases use with
  | confine => exact ⟨rfl, faithful_confine a⟩
  | act act =>
    have hrange := inRange_acted h.inRange act
    cases act with
    | samples n => exact h.samplesOnto n #[]
    | write addr value =>
      exact ⟨congrArg (#[], ·) (forget_write a addr value).symm,
        h.of_memo hrange (memo_write a addr value)⟩
    | stepSequencer =>
      let b := { a with sequencer := a.sequencer.advance.2 }
      exact ⟨congrArg (#[], ·) (forget_clockFrame b a.sequencer.advance.1).symm,
        h.of_memo hrange (memo_clockFrame b a.sequencer.advance.1)⟩
    | withMixing mixing =>
      exact ⟨congrArg (#[], ·) (forget_withMixing a mixing).symm, h.withMixing mixing⟩
    | reset => exact ⟨rfl, hrange, MixMemo.faithful_empty _⟩
    | readStatus | withSampleRate => exact ⟨rfl, h.of_memo hrange ⟨rfl, rfl⟩⟩

theorem hear (h : a.Faithful) (uses : List Use) :
    Apu.hear samplesAnew uses a.forget =
        ((Apu.hear samples uses a).1, (Apu.hear samples uses a).2.forget) ∧
      (Apu.hear samples uses a).2.Faithful := by
  induction uses generalizing a with
  | nil => exact ⟨rfl, h⟩
  | cons use rest ih =>
    obtain ⟨hused, hafter⟩ := h.used use
    obtain ⟨hrest, hlast⟩ := ih hafter
    unfold Apu.hear
    rw [hused]
    dsimp only
    rw [hrest]
    exact ⟨rfl, hlast⟩

theorem mixesAnew (h : a.Faithful) : a.MixesAnew := by
  intro uses
  obtain ⟨hheard, hlast⟩ := h.hear uses
  exact ⟨hheard, hlast.sample.1⟩

end Faithful

end Apu

end Sound

/-! ## Consoles -/

open Sound

namespace Console

/-- Whatever a snapshot holds, its unit is made faithful. -/
theorem faithful_adoptApu (s : Settings) (a : Apu) : (adoptApu s a).Faithful := by
  have hconfined := Apu.faithful_confine a
  have hrate : (a.confine.withSampleRate s.sampleRate).Faithful :=
    hconfined.of_memo hconfined.inRange ⟨rfl, rfl⟩
  exact hrate.withMixing s.mixing

/-- **Remembered samples cannot be heard.**  Every sample of a unit that has only been operated
since power-on, or since it came back from a snapshot, is the one that its levels and its law mix to
anew. -/
theorem samples_mixed_anew :
    Apu.powerOn.MixesAnew ∧
      ∀ (s : Snapshot) (k r : Console), (restore s).run k = (.ok (), r) →
        r.bus.apu.MixesAnew := by
  refine ⟨Apu.faithful_powerOn.mixesAnew, fun s k r hrestore => ?_⟩
  obtain ⟨c, hfits, rfl⟩ := restore_inv hrestore
  exact (faithful_adoptApu k.settings s.apu).mixesAnew

/-- A pulse channel is made to sound, heard, and then mixed by the other law. -/
def pulseRemixed : List Apu.Act :=
  [.write 0x4015 0x01, .write 0x4000 0xBF, .write 0x4002 0x80, .write 0x4003 0x00, .samples 64,
    .withMixing .linear]

/-- A unit that has remembered samples goes through a snapshot. -/
theorem samples_mixed_anew_pulseRemixed :
    let c : Cartridge :=
      ⟨.fixed ⟨.horizontal, 0x8000, false, 0⟩, ⟨#[0xEA], by decide⟩, .zeros 1, true, .zeros 1⟩
    let p : Program := ⟨0, "", none, false⟩
    let k : Console := { powerOn with
      bus := { Bus.powerOn with apu := Apu.powerOn.run pulseRemixed, cartridge := some c }
      program := some p }
    ∃ s r, k.snapshot = .ok s ∧ (restore s).run k = (.ok (), r) ∧ r.bus.apu.MixesAnew := by
  intro c p k
  have hrestore := (fits_snapshotOf (k := k) (c := c) (p := p) rfl rfl).restore_eq
  obtain ⟨-, hrestored⟩ := samples_mixed_anew
  exact ⟨_, _, snapshot_eq_ok rfl rfl, hrestore, hrestored _ k _ hrestore⟩

end Console

end Famicom
