import Famicom.Proofs.Sound.Lengths
import Famicom.Proofs.Sound.Memo

/-!
# Channels do not interfere

The channels share a status register, the frame sequencer and the cycle counter, and yet none of
them can tell what is done to another.  Two units are alike but for a channel if they are equal
once that channel is put back to power-on; every move keeps them alike, and a move that reaches that
channel alone makes a unit alike to what it was.

* `Apu.without` — the unit with a channel put back.
* `Apu.Isolates` — what keeps units alike; `Apu.isolates_moved` — every move does.
* `Apu.Move.besides` — what a move is to the rest of the unit; `Apu.without_moved_besides`.
* `Apu.without_run` — a run and what it is to the rest of the unit.
* `Apu.channels_isolated` — all of it.
-/

namespace Famicom.Sound

open Apu (Act Move)

namespace Channel

/-- An address of one of the channel's four registers. -/
def owns (ch : Channel) (addr : UInt16) : Bool :=
  ch.control ≤ addr && addr < ch.control + 4

/-- A status value without the channel's bit. -/
def unset (ch : Channel) (value : UInt8) : UInt8 := value &&& ~~~ch.statusMask

/-- Clearing the bit of one channel leaves those of the others. -/
theorem hasBits_unset {ch other : Channel} (h : other ≠ ch) (value : UInt8) :
    hasBits (ch.unset value) other.statusMask = hasBits value other.statusMask := by
  have hother : ~~~ch.statusMask &&& other.statusMask = other.statusMask := by
    cases ch <;> cases other <;> first | rfl | exact absurd rfl h
  rw [hasBits, unset, UInt8.and_assoc, hother, hasBits]

end Channel

/-- The state of one channel. -/
inductive ChannelState
  | pulse (p : Pulse)
  | triangle (t : Triangle)
  | noise (n : Noise)
  deriving DecidableEq, Repr

namespace Apu

/-- The state of a channel. -/
def channel (a : Apu) : Channel → ChannelState
  | .pulse1 => .pulse a.pulse1
  | .pulse2 => .pulse a.pulse2
  | .triangle => .triangle a.triangle
  | .noise => .noise a.noise

/-- The unit with a channel put back to power-on, and nothing remembered of what was heard. -/
def without (ch : Channel) (a : Apu) : Apu :=
  match ch with
  | .pulse1 => { a with pulse1 := powerOn.pulse1, memo := .empty }
  | .pulse2 => { a with pulse2 := powerOn.pulse2, memo := .empty }
  | .triangle => { a with triangle := powerOn.triangle, memo := .empty }
  | .noise => { a with noise := powerOn.noise, memo := .empty }

/-! ## What is seen of a unit without a channel -/

section

variable {ch other : Channel} (a : Apu)

/-- What is left out of one channel is not of the others. -/
theorem channel_without (h : other ≠ ch) : (a.without ch).channel other = a.channel other := by
  cases ch <;> cases other <;> first | rfl | exact absurd rfl h

theorem levelOf_without (h : other ≠ ch) : (a.without ch).levelOf other = a.levelOf other := by
  cases ch <;> cases other <;> first | rfl | exact absurd rfl h

variable (ch)

theorem sequencer_without : (a.without ch).sequencer = a.sequencer := by cases ch <;> rfl

theorem cpuCycle_without : (a.without ch).cpuCycle = a.cpuCycle := by cases ch <;> rfl

/-- A channel that has been put back has no time left. -/
theorem status_without : (a.without ch).status = ch.unset a.status := by
  have hbits (p q t n i : Bool) :
      let status (p q t n : Bool) : UInt8 := (if p then 0x01 else 0) ||| (if q then 0x02 else 0)
        ||| (if t then 0x04 else 0) ||| (if n then 0x08 else 0) ||| (if i then 0x40 else 0)
      status false q t n = status p q t n &&& ~~~0x01 ∧
        status p false t n = status p q t n &&& ~~~0x02 ∧
        status p q false n = status p q t n &&& ~~~0x04 ∧
        status p q t false = status p q t n &&& ~~~0x08 := by
    revert p q t n i
    decide
  obtain ⟨hpulse1, hpulse2, htriangle, hnoise⟩ := hbits a.pulse1.length.running
    a.pulse2.length.running a.triangle.length.running a.noise.length.running a.sequencer.irqFlag
  cases ch
  · exact hpulse1
  · exact hpulse2
  · exact htriangle
  · exact hnoise

end

/-- Two units agree on all but a channel: on the states and the levels of the other channels, the
sequencer, the interrupt, the other bits of the status and the counted cycles. -/
structure AlikeBut (ch : Channel) (a b : Apu) : Prop where
  channel : ∀ other, other ≠ ch → a.channel other = b.channel other
  level : ∀ other, other ≠ ch → a.levelOf other = b.levelOf other
  sequencer : a.sequencer = b.sequencer
  irqPending : a.irqPending = b.irqPending
  status : ch.unset a.readStatus.1 = ch.unset b.readStatus.1
  cpuCycle : a.cpuCycle = b.cpuCycle

theorem AlikeBut.of_without {ch : Channel} {a b : Apu} (h : a.without ch = b.without ch) :
    AlikeBut ch a b where
  channel other hother := by rw [← channel_without a hother, h, channel_without b hother]
  level other hother := by rw [← levelOf_without a hother, h, levelOf_without b hother]
  sequencer := by rw [← sequencer_without ch a, h, sequencer_without]
  irqPending := by rw [Apu.irqPending, ← sequencer_without ch a, h, sequencer_without]; rfl
  status := by rw [readStatus, ← status_without, h, status_without]; rfl
  cpuCycle := by rw [← cpuCycle_without ch a, h, cpuCycle_without]

/-! ## Moves keep units alike -/

/-- Units that are alike but for the channel are still so afterwards. -/
def Isolates (ch : Channel) (f : Apu → Apu) : Prop :=
  ∀ a b : Apu, a.without ch = b.without ch → (f a).without ch = (f b).without ch

section

variable {ch : Channel}

/-- It is enough that leaving the channel out first makes no difference to the others. -/
theorem Isolates.of_without {f : Apu → Apu}
    (h : ∀ a, (f a).without ch = (f (a.without ch)).without ch) : Isolates ch f := by
  intro a b hab
  rw [h a, hab, ← h b]

theorem isolates_clockTimers : Isolates ch clockTimers := by
  refine .of_without fun a => ?_
  unfold clockTimers
  rw [cpuCycle_without]
  dsimp only
  split <;> cases ch <;> rfl

theorem isolates_runTimers (n : Nat) : Isolates ch (runTimers n) := by
  induction n with
  | zero => exact fun _ _ h => h
  | succ n ih => exact fun _ _ h => ih _ _ (isolates_clockTimers _ _ h)

theorem isolates_clockFrame (clocks : Beat) : Isolates ch (clockFrame · clocks) := by
  refine .of_without fun a => ?_
  obtain ⟨quarter, half⟩ := clocks
  cases quarter <;> cases half <;> cases ch <;> rfl

/-- What is clocked is told from the sequencer, which is never put back. -/
theorem isolates_stepSequencer : Isolates ch stepSequencer := by
  refine .of_without fun a => ?_
  let b := { a with sequencer := a.sequencer.advance.2 }
  cases ch <;> exact isolates_clockFrame a.sequencer.advance.1 b _ rfl

/-- A write reaches one channel, or the status that they share. -/
theorem isolates_write (addr : UInt16) (value : UInt8) : Isolates ch (write · addr value) := by
  refine .of_without fun a => ?_
  unfold write
  split
  case h_16 =>
    let b := { a with sequencer := a.sequencer.writeControl value }
    cases ch <;> exact isolates_clockFrame ⟨b.sequencer.fiveStep, b.sequencer.fiveStep⟩ b _ rfl
  all_goals cases ch <;> rfl

/-- A sample runs the timers, each of its channel. -/
theorem isolates_sample : Isolates ch fun a => a.sample.2 := by
  refine .of_without fun a => ?_
  have hsample (b : Apu) :
      b.sample.2.without ch = (b.accrue.2.runTimers b.accrue.1).without ch := by
    cases ch <;> rfl
  have haccrue : (a.without ch).accrue = (a.accrue.1, a.accrue.2.without ch) := by cases ch <;> rfl
  have hagain (b : Apu) : (b.without ch).without ch = b.without ch := by cases ch <;> rfl
  rw [hsample, hsample, haccrue]
  exact isolates_runTimers a.accrue.1 _ _ (hagain a.accrue.2).symm

theorem isolates_samplesOnto (n : Nat) (buffer : Array UInt8) :
    Isolates ch fun a => (a.samplesOnto buffer n).2 := by
  suffices h : ∀ (before after : Array UInt8) (a b : Apu), a.without ch = b.without ch →
      (a.samplesOnto before n).2.without ch = (b.samplesOnto after n).2.without ch from
    h buffer buffer
  -- the two units give different samples, so that the buffers come apart
  induction n with
  | zero => exact fun _ _ _ _ h => h
  | succ n ih => exact fun _ _ a b h => ih _ _ a.sample.2 b.sample.2 (isolates_sample a b h)

theorem isolates_withMixing (mixing : Mixing) : Isolates ch (withMixing · mixing) := by
  refine .of_without fun a => ?_
  have hmixing : (a.without ch).mixing = a.mixing := by cases ch <;> rfl
  unfold withMixing
  rw [hmixing]
  split <;> cases ch <;> rfl

/-- Every move keeps units alike. -/
theorem isolates_moved (m : Move) : Isolates ch (moved · m) := by
  cases m with
  | clockTimers => exact isolates_clockTimers
  | act act =>
    cases act with
    | write addr value => exact isolates_write addr value
    | stepSequencer => exact isolates_stepSequencer
    | samples n => exact isolates_samplesOnto n #[]
    | withMixing mixing => exact isolates_withMixing mixing
    | readStatus | withSampleRate | reset => exact .of_without fun a => by cases ch <;> rfl

end

/-! ## Moves of one channel -/

/-- What a move is to the rest of the unit: a write to a register of the channel is nothing, and
the channel's bit of the status register is left out. -/
def Move.besides (ch : Channel) : Move → Option Move
  | .act (.write addr value) =>
    if ch.owns addr then none
    else some (.act (.write addr (if addr = 0x4015 then ch.unset value else value)))
  | m => some m

theorem Move.besides_own {ch : Channel} {addr : UInt16} (h : ch.owns addr = true) (value : UInt8) :
    besides ch (.act (.write addr value)) = none := if_pos h

/-- Two runs are the same but for what they do to a channel. -/
def SameBut (ch : Channel) (xs ys : List Move) : Prop :=
  xs.filterMap (Move.besides ch) = ys.filterMap (Move.besides ch)

section

variable {ch : Channel} (a : Apu)

/-- The registers of a channel reach nothing else. -/
theorem without_write_own {addr : UInt16} (h : ch.owns addr = true) (value : UInt8) :
    (a.write addr value).without ch = a.without ch := by
  unfold write
  split <;> cases ch <;> first | rfl | exact absurd h (by decide)

/-- The channel's bit of the status register reaches nothing else. -/
theorem without_writeStatus (ch : Channel) (value : UInt8) :
    (a.writeStatus (ch.unset value)).without ch = (a.writeStatus value).without ch := by
  have hbit (other : Channel) (h : other ≠ ch) := Channel.hasBits_unset h value
  have hpulse1 : .pulse1 ≠ ch → hasBits (ch.unset value) 0x01 = hasBits value 0x01 := hbit .pulse1
  have hpulse2 : .pulse2 ≠ ch → hasBits (ch.unset value) 0x02 = hasBits value 0x02 := hbit .pulse2
  have htriangle : .triangle ≠ ch → hasBits (ch.unset value) 0x04 = hasBits value 0x04 :=
    hbit .triangle
  have hnoise : .noise ≠ ch → hasBits (ch.unset value) 0x08 = hasBits value 0x08 := hbit .noise
  unfold writeStatus
  cases ch <;>
    simp only [without, ne_eq, reduceCtorEq, not_false_eq_true, hpulse1, hpulse2, htriangle, hnoise]

/-- A move is to the rest of the unit what it is besides the channel. -/
theorem without_moved_besides (ch : Channel) (m : Move) :
    ((m.besides ch).elim a a.moved).without ch = (a.moved m).without ch := by
  unfold Move.besides
  split
  · next addr value =>
    split
    · next hown => exact (without_write_own a hown value).symm
    · split
      · next hstatus =>
        subst hstatus
        exact without_writeStatus a ch value
      · rfl
  · rfl

/-- A run is to the rest of the unit what its moves are. -/
theorem without_run (ch : Channel) (moves : List Move) :
    (moves.foldl moved a).without ch =
      ((moves.filterMap (Move.besides ch)).foldl moved a).without ch := by
  rw [List.foldl_filterMap]
  refine List.foldl_rel (r := fun b c : Apu => b.without ch = c.without ch) rfl ?_
  intro m _ b c h
  have hmove := (isolates_moved m b c h).trans (without_moved_besides c ch m).symm
  cases hrest : m.besides ch with
  | none => rwa [hrest] at hmove
  | some rest => rwa [hrest] at hmove

theorem SameBut.without_run {xs ys : List Move} (h : SameBut ch xs ys) :
    (xs.foldl moved a).without ch = (ys.foldl moved a).without ch := by
  rw [Apu.without_run, Apu.without_run a ch ys, h]

/-- Wherever one run is stopped, the other can be stopped too. -/
theorem SameBut.exists_prefix {xs ys : List Move} (h : SameBut ch xs ys) {before : List Move}
    (hbefore : before <+: xs) : ∃ before', before' <+: ys ∧ SameBut ch before before' := by
  obtain ⟨after, rfl⟩ := hbefore
  have happend : ys.filterMap (Move.besides ch) =
      before.filterMap (Move.besides ch) ++ after.filterMap (Move.besides ch) := by
    rw [← h, List.filterMap_append]
  obtain ⟨before', after', rfl, hsame, -⟩ := List.filterMap_eq_append_iff.mp happend
  exact ⟨before', List.prefix_append before' after', hsame.symm⟩

/-- A move that reaches the channel alone can stand on either side of another. -/
theorem SameBut.swap {m : Move} (h : m.besides ch = none) (m' : Move) :
    SameBut ch [m, m'] [m', m] := by
  unfold SameBut
  cases hrest : m'.besides ch with
  | none | some => simp only [List.filterMap_cons, List.filterMap_nil, h, hrest]

/-- Units that are alike but for one channel, and alike but for another, are the same but for what
they remember. -/
theorem eq_of_without {b : Apu} {other : Channel} (hne : ch ≠ other)
    (h : a.without ch = b.without ch) (hother : a.without other = b.without other)
    (hmemo : a.memo = b.memo) : a = b := by
  obtain ⟨⟩ := a
  obtain ⟨⟩ := b
  cases ch <;> cases other <;> simp_all [without]

end

/-! ## All of it -/

/-- **Channels do not interfere.**  Let two runs be the same but for what they do to one channel:
but for writes to its four registers, wherever they stand, and for its bit of what is written to the
status register.  Then the units that they lead to agree on the other channels, their levels, the
sequencer, the interrupt and the rest of the status.  Wherever one of the runs is stopped, so can
the other be: what has been run till then is again the same but for that channel, and the units
agree there too.  Writes to registers of two channels can change places. -/
theorem channels_isolated (a : Apu) (ch : Channel) :
    (∀ xs ys : List Move, SameBut ch xs ys →
      AlikeBut ch (xs.foldl moved a) (ys.foldl moved a) ∧
      ∀ before, before <+: xs → ∃ before', before' <+: ys ∧ SameBut ch before before' ∧
        AlikeBut ch (before.foldl moved a) (before'.foldl moved a)) ∧
    ∀ (other : Channel) (addr addr' : UInt16) (value value' : UInt8), ch ≠ other →
      ch.owns addr = true → other.owns addr' = true →
        (a.write addr value).write addr' value' = (a.write addr' value').write addr value := by
  have halike {xs ys : List Move} (h : SameBut ch xs ys) :
      AlikeBut ch (xs.foldl moved a) (ys.foldl moved a) := .of_without (h.without_run a)
  refine ⟨fun xs ys h => ⟨halike h, fun before hbefore => ?_⟩, ?_⟩
  · obtain ⟨before', hbefore', hsame⟩ := h.exists_prefix hbefore
    exact ⟨before', hbefore', hsame, halike hsame⟩
  intro other addr addr' value value' hne hown hown'
  let w : Move := .act (.write addr value)
  let w' : Move := .act (.write addr' value')
  have hsame : SameBut ch [w, w'] [w', w] := .swap (Move.besides_own hown value) w'
  have hother : SameBut other [w', w] [w, w'] := .swap (Move.besides_own hown' value') w
  refine eq_of_without _ hne (hsame.without_run a) (hother.without_run a).symm ?_
  rw [(memo_write _ _ _).1, (memo_write _ _ _).1, (memo_write _ _ _).1, (memo_write _ _ _).1]

/-- The second pulse is set up, enabled and clocked while the first plays. -/
theorem channels_isolated_pulses :
    let plays : List Move := [.act (.write 0x4015 0x03), .act (.write 0x4000 0xBF),
      .act (.write 0x4002 0x80), .act (.write 0x4004 0x9F), .act (.write 0x4007 0x08),
      .act .stepSequencer, .clockTimers, .clockTimers]
    let alone : List Move := [.act (.write 0x4015 0x01), .act (.write 0x4000 0xBF),
      .act (.write 0x4002 0x80), .act .stepSequencer, .clockTimers, .clockTimers]
    let a := powerOn
    SameBut .pulse2 plays alone ∧ Channel.pulse1.owns 0x4000 = true ∧
      Channel.pulse2.owns 0x4007 = true ∧
      AlikeBut .pulse2 (plays.foldl moved a) (alone.foldl moved a) ∧
      (∃ before, before <+: alone ∧ SameBut .pulse2 (plays.take 6) before ∧
        AlikeBut .pulse2 ((plays.take 6).foldl moved a) (before.foldl moved a)) ∧
      (a.write 0x4000 0xBF).write 0x4007 0x08 = (a.write 0x4007 0x08).write 0x4000 0xBF ∧
      (plays.foldl moved a).channel .pulse2 ≠ (alone.foldl moved a).channel .pulse2 := by
  intro plays alone a
  have hsame : SameBut .pulse2 plays alone := rfl
  have hruns := (channels_isolated a .pulse2).1 plays alone hsame
  have hswapped := (channels_isolated a .pulse1).2 .pulse2 0x4000 0x4007 0xBF 0x08 (by decide)
    (by decide) (by decide)
  exact ⟨hsame, by decide, by decide, hruns.1,
    hruns.2 (plays.take 6) (List.take_prefix 6 plays), hswapped, by decide⟩

end Apu

end Famicom.Sound
