import Famicom.Proofs.Sound.Lengths

/-!
# How an envelope decays

From its restart on an envelope is a clock with two hands.  The divider goes down once a quarter
frame and comes round every `V + 1` of them, where `V` is the volume; each time it does, the decay
level goes down by one, and at zero it stays or comes round.  Where both stand after `n` quarter
frames is therefore a quotient and a remainder.

* `Envelope.Falling` — the envelope after a number of quarter frames; `Envelope.Falling.clock` — the
  next one.
* `Voice` — the three channels with an envelope; `Apu.envelope_moved` — what a move does to it.
* `Apu.falling_run` — an envelope in a run that leaves its settings alone.
* `Apu.envelope_decays` — the closed form.
-/

namespace Famicom.Sound

open Apu (Act Move)

/-! ## Closed form -/

namespace Envelope

/-- The decay level after a number of falls. -/
def fallen (looping : Bool) (falls : Nat) : Nat :=
  if looping then 15 - falls % 16 else 15 - min falls 15

/-- An envelope with volume `V`, some `n` quarter frames after it was told to restart. -/
structure Falling (V : UInt8) (looping : Bool) (n : Nat) (e : Envelope) : Prop where
  volume : e.volume = V
  start : e.start = decide (n = 0)
  divider : 0 < n → e.divider.toNat = V.toNat - (n - 1) % (V.toNat + 1)
  decay : 0 < n → e.decay.toNat = fallen looping ((n - 1) / (V.toNat + 1))

theorem toNat_lowerDecay {looping : Bool} {decay : UInt8} {falls : Nat}
    (h : decay.toNat = fallen looping falls) :
    (lowerDecay looping decay).toNat = fallen looping (falls + 1) := by
  have hzero : decay = 0 ↔ decay.toNat = 0 := UInt8.toNat_inj.symm
  unfold fallen at h ⊢
  unfold lowerDecay
  split
  · next hne =>
    rw [Ne, hzero] at hne
    rw [UInt8.toNat_sub, UInt8.toNat_one]
    cases looping <;> simp only [Bool.false_eq_true, if_false, if_true] at h ⊢ <;> omega
  · next heq =>
    rw [not_not, hzero] at heq
    cases looping <;> simp only [Bool.false_eq_true, if_false, if_true] at h ⊢
    · rw [UInt8.toNat_zero]
      omega
    · change 15 = _
      omega

section Divider

variable {m k : Nat}

/-- A divider that comes round every `k + 1` clocks does so now. -/
theorem div_mod_of_round (h : m % (k + 1) = k) :
    (m + 1) / (k + 1) = m / (k + 1) + 1 ∧ (m + 1) % (k + 1) = 0 := by
  have hpos : 0 < k + 1 := k.succ_pos
  have hm := Nat.div_add_mod m (k + 1)
  refine (Nat.div_mod_unique hpos).mpr ⟨?_, hpos⟩
  rw [Nat.mul_add_one]
  omega

/-- It goes on to the next place. -/
theorem div_mod_of_between (h : m % (k + 1) ≠ k) :
    (m + 1) / (k + 1) = m / (k + 1) ∧ (m + 1) % (k + 1) = m % (k + 1) + 1 := by
  have hpos : 0 < k + 1 := k.succ_pos
  have hm := Nat.div_add_mod m (k + 1)
  have hlt := Nat.mod_lt m hpos
  refine (Nat.div_mod_unique hpos).mpr ⟨?_, ?_⟩ <;> omega

end Divider

section

variable {V : UInt8} {looping : Bool} {n : Nat} {e : Envelope}

/-- The quarter frame that restarts the envelope. -/
theorem Falling.clock_first (h : e.Falling V looping 0) :
    (e.clock looping).Falling V looping 1 := by
  have hstart : e.start = true := h.start
  rw [Envelope.clock, if_pos hstart]
  refine ⟨h.volume, rfl, fun _ => ?_, fun _ => ?_⟩
  · rw [h.volume, Nat.sub_self, Nat.zero_mod, Nat.sub_zero]
  · rw [Nat.sub_self, Nat.zero_div]
    cases looping <;> rfl

/-- One more quarter frame. -/
theorem Falling.clock (h : e.Falling V looping n) :
    (e.clock looping).Falling V looping (n + 1) := by
  -- the first clock takes the start; after it the divider runs in rounds
  cases n with
  | zero => exact h.clock_first
  | succ m =>
    have hdivider : e.divider.toNat = V.toNat - m % (V.toNat + 1) := h.divider m.succ_pos
    have hdecay : e.decay.toNat = fallen looping (m / (V.toNat + 1)) := h.decay m.succ_pos
    have hlt : m % (V.toNat + 1) < V.toNat + 1 := Nat.mod_lt m (Nat.succ_pos _)
    have hround : e.divider = 0 ↔ m % (V.toNat + 1) = V.toNat := by
      rw [← UInt8.toNat_inj, hdivider, UInt8.toNat_zero]
      omega
    rw [Envelope.clock, if_neg (Bool.eq_false_iff.mp h.start)]
    split
    · next hzero =>
      obtain ⟨hdiv, hmod⟩ := div_mod_of_round (hround.mp hzero)
      refine ⟨h.volume, h.start, fun _ => ?_, fun _ => ?_⟩
      · rw [Nat.add_sub_cancel, hmod, Nat.sub_zero, h.volume]
      · rw [Nat.add_sub_cancel, hdiv]
        exact toNat_lowerDecay hdecay
    · next hne =>
      obtain ⟨hdiv, hmod⟩ := div_mod_of_between (fun heq => hne (hround.mpr heq))
      have hleft : m % (V.toNat + 1) ≠ V.toNat := fun heq => hne (hround.mpr heq)
      refine ⟨h.volume, h.start, fun _ => ?_, fun _ => ?_⟩
      · rw [Nat.add_sub_cancel, hmod, UInt8.toNat_sub, UInt8.toNat_one, hdivider]
        have := V.toNat_lt
        omega
      · rw [Nat.add_sub_cancel, hdiv]
        exact hdecay

theorem Falling.iterate (h : e.Falling V looping 0) (n : Nat) :
    ((Envelope.clock looping)^[n] e).Falling V looping n := by
  induction n with
  | zero => exact h
  | succ n ih =>
    rw [Function.iterate_succ_apply']
    exact ih.clock

theorem Falling.of_start (h : e.start = true) : e.Falling e.volume looping 0 where
  volume := rfl
  start := h
  divider hpos := absurd hpos (Nat.lt_irrefl 0)
  decay hpos := absurd hpos (Nat.lt_irrefl 0)

/-- Where an envelope of volume `V` stands after `n` quarter frames. -/
structure Decayed (V : UInt8) (looping : Bool) (n : Nat) (e : Envelope) : Prop where
  decay : e.decay.toNat = fallen looping ((n - 1) / (V.toNat + 1))
  divider : e.divider.toNat = V.toNat - (n - 1) % (V.toNat + 1)
  level : e.level = if e.constantVolume then V else e.decay

theorem Falling.decayed (h : e.Falling V looping n) (hn : 1 ≤ n) : e.Decayed V looping n :=
  ⟨h.decay hn, h.divider hn, by rw [level, h.volume]⟩

end

end Envelope

/-! ## The envelopes of the unit -/

/-- A channel with an envelope. -/
inductive Voice
  | pulse1
  | pulse2
  | noise
  deriving DecidableEq, Repr

namespace Voice

def channel : Voice → Channel
  | pulse1 => .pulse1
  | pulse2 => .pulse2
  | noise => .noise

/-- A move that leaves the envelope with the volume `V` and the given loop flag, and does not
restart it.  The loop flag of an envelope is the flag that halts the length counter of its
channel. -/
def Leaves (v : Voice) (V : UInt8) (looping : Bool) : Move → Prop
  | .act (.write addr value) =>
    addr ≠ v.channel.loader ∧
      (addr = v.channel.control →
        value &&& 0x0F = V ∧ hasBits value v.channel.haltMask = looping)
  | .act .reset => False
  | _ => True

end Voice

/-- The envelope of a channel after a write to a register. -/
def Envelope.written (e : Envelope) (v : Voice) (addr : UInt16) (value : UInt8) : Envelope :=
  if addr = v.channel.loader then e.restart
  else if addr = v.channel.control then e.write value
  else e

/-- The envelope of a channel after all of a move but its clocks. -/
def Envelope.prepared (e : Envelope) (v : Voice) : Move → Envelope
  | .act (.write addr value) => e.written v addr value
  | .act .reset => .powerOn
  | _ => e

namespace Apu

/-- The envelope of a channel. -/
def envelope (a : Apu) : Voice → Envelope
  | .pulse1 => a.pulse1.envelope
  | .pulse2 => a.pulse2.envelope
  | .noise => a.noise.envelope

section

variable (a : Apu) (v : Voice)

theorem envelope_clockFrame (clocks : Beat) :
    (a.clockFrame clocks).envelope v =
      if clocks.quarter then (a.envelope v).clock (a.length v.channel).halt else a.envelope v := by
  obtain ⟨quarter, half⟩ := clocks
  cases quarter <;> cases half <;> cases v <;> rfl

theorem envelope_write {addr : UInt16} (haddr : addr ≠ 0x4017) (value : UInt8) :
    (a.write addr value).envelope v = (a.envelope v).written v addr value := by
  unfold write
  split
  case h_16 => exact absurd rfl haddr
  case h_17 =>
    -- the address is no register
    cases v <;> rw [Envelope.written, if_neg, if_neg] <;> first | rfl | assumption
  all_goals cases v <;> rfl

theorem envelope_prepared (m : Move) :
    (a.prepared m).envelope v = (a.envelope v).prepared v m := by
  have hsame (hwrites : m.writes = false) (hresets : m.resets = false) :
      (a.prepared m).envelope v = a.envelope v := by
    have hchannels := a.channels_prepared hwrites hresets
    cases v with
    | pulse1 => exact congrArg (·.pulse1.envelope) hchannels
    | pulse2 => exact congrArg (·.pulse2.envelope) hchannels
    | noise => exact congrArg (·.noise.envelope) hchannels
  cases m with
  | act act =>
    cases act with
    | write addr value =>
      by_cases haddr : addr = 0x4017
      · subst haddr
        cases v <;> rfl
      · rw [prepared, if_neg haddr, envelope_write a v haddr, Envelope.prepared]
    | reset => cases v <;> rfl
    | _ => exact hsame rfl rfl
  | clockTimers => exact hsame rfl rfl

/-- The envelope of a channel after a move. -/
theorem envelope_moved (m : Move) :
    (a.moved m).envelope v =
      if (a.sequencer.beat m).quarter then
        ((a.envelope v).prepared v m).clock ((a.length v.channel).prepared v.channel m).halt
      else (a.envelope v).prepared v m := by
  rw [moved_eq_clockFrame, envelope_clockFrame, envelope_prepared, length_prepared]

end

/-! ## Runs that leave the settings alone -/

variable {a : Apu} {v : Voice} {V : UInt8} {looping : Bool} {n : Nat}

theorem halt_prepared {m : Move} (hm : v.Leaves V looping m) {l : LengthCounter}
    (h : l.halt = looping) : (l.prepared v.channel m).halt = looping := by
  cases m with
  | act act =>
    cases act with
    | write addr value =>
      obtain ⟨hloader, hcontrol⟩ := hm
      rw [LengthCounter.prepared, LengthCounter.written, if_neg hloader]
      split
      · next haddr => exact (hcontrol haddr).2
      · split
        · exact h
        · exact h
    | reset => exact absurd hm id
    | _ => exact h
  | clockTimers => exact h

theorem falling_prepared {m : Move} (hm : v.Leaves V looping m) {e : Envelope}
    (h : e.Falling V looping n) : (e.prepared v m).Falling V looping n := by
  cases m with
  | act act =>
    cases act with
    | write addr value =>
      obtain ⟨hloader, hcontrol⟩ := hm
      rw [Envelope.prepared, Envelope.written, if_neg hloader]
      split
      · next haddr => exact ⟨(hcontrol haddr).1, h.start, h.divider, h.decay⟩
      · exact h
    | reset => exact absurd hm id
    | _ => exact h
  | clockTimers => exact h

/-- A move that leaves the settings of an envelope clocks it or leaves it where it is. -/
theorem falling_moved {m : Move} (hm : v.Leaves V looping m)
    (hhalt : (a.length v.channel).halt = looping) (h : (a.envelope v).Falling V looping n) :
    ((a.moved m).length v.channel).halt = looping ∧
      ((a.moved m).envelope v).Falling V looping
        (n + if (a.sequencer.beat m).quarter then 1 else 0) := by
  have hprepared := halt_prepared hm hhalt
  constructor
  · rw [length_moved]
    split
    · rw [LengthCounter.halt_clock, hprepared]
    · exact hprepared
  · rw [envelope_moved, hprepared]
    split
    · exact (falling_prepared hm h).clock
    · exact falling_prepared hm h

/-- An envelope whose settings are left alone counts the quarter frames of the run. -/
theorem falling_run {moves : List Move} (hmoves : ∀ m ∈ moves, v.Leaves V looping m)
    (hhalt : (a.length v.channel).halt = looping) (h : (a.envelope v).Falling V looping n) :
    ((moves.foldl moved a).envelope v).Falling V looping (n + a.quarters moves) := by
  induction moves generalizing a n with
  | nil => exact h
  | cons m rest ih =>
    obtain ⟨hm, hrest⟩ := List.forall_mem_cons.mp hmoves
    obtain ⟨hhalt, hfalls⟩ := falling_moved hm hhalt h
    have hrun := ih hrest hhalt hfalls
    rw [Nat.add_assoc] at hrun
    exact hrun

/-- **How an envelope decays.**  After `n ≥ 1` quarter frames from its restart on, the level of an
envelope with volume `V` has fallen once for each full `V + 1` of the `n - 1` since the first, down
to zero or, looping, from zero to 15 again; the divider has gone down by the rest; and the channel
plays at the volume if that is constant, else at the decay level.  In the audio unit so does the
envelope of each of the three channels, in every run that clocks `n` quarter frames and leaves its
volume and loop flag as they are. -/
theorem envelope_decays :
    (∀ (e : Envelope) (looping : Bool) (n : Nat), e.start = true → 1 ≤ n →
      ((Envelope.clock looping)^[n] e).Decayed e.volume looping n) ∧
    ∀ (a : Apu) (v : Voice) (moves : List Move),
      let V := (a.envelope v).volume
      let looping := (a.length v.channel).halt
      let n := a.quarters moves
      (a.envelope v).start = true → (∀ m ∈ moves, v.Leaves V looping m) → 1 ≤ n →
      ((moves.foldl moved a).envelope v).Decayed V looping n := by
  constructor
  · intro e looping n hstart hn
    exact ((Envelope.Falling.of_start hstart).iterate n).decayed hn
  · intro a v moves V looping n hstart hmoves hn
    have hrun := falling_run hmoves rfl (Envelope.Falling.of_start hstart)
    rw [Nat.zero_add] at hrun
    exact hrun.decayed hn

/-- A looping envelope of volume one that comes round at zero, while its channel turns to a constant
volume. -/
theorem envelope_decays_looping :
    let a := (powerOn.write 0x4000 0x21).write 0x4003 0x00
    let moves : List Move :=
      .act (.write 0x4000 0xB1) :: List.replicate 35 (.act .stepSequencer)
    (a.envelope .pulse1).start = true ∧ (∀ m ∈ moves, Voice.pulse1.Leaves 0x01 true m) ∧
      a.quarters moves = 35 ∧
      ((moves.foldl moved a).envelope .pulse1).decay.toNat = 14 ∧
      ((moves.foldl moved a).envelope .pulse1).divider.toNat = 1 := by
  intro a moves
  have hmoves : ∀ m ∈ moves, Voice.pulse1.Leaves 0x01 true m := by
    refine List.forall_mem_cons.mpr ⟨?_, fun m hm => ?_⟩
    · exact ⟨by decide, by decide⟩
    · rw [List.eq_of_mem_replicate hm]
      trivial
  have hquarters : a.quarters moves = 35 := by decide +kernel
  have hdecayed := envelope_decays.2 a .pulse1 moves rfl hmoves (by rw [hquarters]; decide)
  have hvolume : (a.envelope .pulse1).volume = 0x01 := rfl
  have hloops : (a.length .pulse1).halt = true := rfl
  rw [hquarters, hvolume, Voice.channel, hloops] at hdecayed
  exact ⟨rfl, hmoves, hquarters, hdecayed.decay, hdecayed.divider⟩

end Apu

end Famicom.Sound
