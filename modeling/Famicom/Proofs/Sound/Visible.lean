import Famicom.Proofs.Sound.Range
import Famicom.Sound.Apu

/-!
# What programs see of the audio unit

A program sees the length counters of the channels and the frame sequencer, nothing else.  Two
units with the same counters and sequencer look alike to it, and go on looking alike whatever it
does.

* `LooksLike.status_eq`, `LooksLike.write`, `LooksLike.stepSequencer` — reading and writing
  registers, and the passing of time.
* `looksLike_confine` — confining a unit cannot be seen.
-/

namespace Famicom.Sound.Apu

/-- Two audio units that a program cannot tell apart. -/
structure LooksLike (a b : Apu) : Prop where
  pulse1 : a.pulse1.length = b.pulse1.length
  pulse2 : a.pulse2.length = b.pulse2.length
  triangle : a.triangle.length = b.triangle.length
  noise : a.noise.length = b.noise.length
  sequencer : a.sequencer = b.sequencer

namespace LooksLike

variable {a b : Apu}

theorem refl (a : Apu) : LooksLike a a := ⟨rfl, rfl, rfl, rfl, rfl⟩

theorem trans {c : Apu} (h : LooksLike a b) (k : LooksLike b c) : LooksLike a c where
  pulse1 := h.pulse1.trans k.pulse1
  pulse2 := h.pulse2.trans k.pulse2
  triangle := h.triangle.trans k.triangle
  noise := h.noise.trans k.noise
  sequencer := h.sequencer.trans k.sequencer

/-! ## Reading -/

/-- The status byte is read off lengths and flags. -/
theorem status_eq (h : LooksLike a b) : a.status = b.status := by
  unfold status
  rw [h.pulse1, h.pulse2, h.triangle, h.noise, h.sequencer]

theorem irqPending_eq (h : LooksLike a b) : a.irqPending = b.irqPending :=
  congrArg Sequencer.irqFlag h.sequencer

theorem readStatus (h : LooksLike a b) : LooksLike a.readStatus.2 b.readStatus.2 :=
  ⟨h.pulse1, h.pulse2, h.triangle, h.noise, congrArg Sequencer.acknowledge h.sequencer⟩

/-! ## Frame clocks -/

theorem setSequencer (h : LooksLike a b) (sequencer : Sequencer) :
    LooksLike { a with sequencer } { b with sequencer } :=
  ⟨h.pulse1, h.pulse2, h.triangle, h.noise, rfl⟩

theorem clockQuarter (h : LooksLike a b) : LooksLike a.clockQuarter b.clockQuarter :=
  ⟨h.pulse1, h.pulse2, h.triangle, h.noise, h.sequencer⟩

/-- Half frames clock the lengths, and each by its own state. -/
theorem clockHalf (h : LooksLike a b) : LooksLike a.clockHalf b.clockHalf where
  pulse1 := congrArg LengthCounter.clock h.pulse1
  pulse2 := congrArg LengthCounter.clock h.pulse2
  triangle := congrArg LengthCounter.clock h.triangle
  noise := congrArg LengthCounter.clock h.noise
  sequencer := h.sequencer

/-- Beats that are the same clock the same frames. -/
theorem clockFrame (h : LooksLike a b) (clocks : Beat) :
    LooksLike (a.clockFrame clocks) (b.clockFrame clocks) := by
  have hquarter : LooksLike (if clocks.quarter then a.clockQuarter else a)
      (if clocks.quarter then b.clockQuarter else b) := by
    split
    · exact h.clockQuarter
    · exact h
  unfold Apu.clockFrame
  dsimp only
  split
  · exact hquarter.clockHalf
  · exact hquarter

/-- Units that look alike have the same sequencer, so they take the same beat. -/
theorem stepSequencer (h : LooksLike a b) : LooksLike a.stepSequencer b.stepSequencer := by
  unfold Apu.stepSequencer
  rw [h.sequencer]
  exact (h.setSequencer _).clockFrame _

/-! ## Registers -/

theorem writeStatus (h : LooksLike a b) (value : UInt8) :
    LooksLike (a.writeStatus value) (b.writeStatus value) where
  pulse1 := congrArg (LengthCounter.enable · _) h.pulse1
  pulse2 := congrArg (LengthCounter.enable · _) h.pulse2
  triangle := congrArg (LengthCounter.enable · _) h.triangle
  noise := congrArg (LengthCounter.enable · _) h.noise
  sequencer := h.sequencer

theorem writeFrameCounter (h : LooksLike a b) (value : UInt8) :
    LooksLike (a.writeFrameCounter value) (b.writeFrameCounter value) := by
  unfold Apu.writeFrameCounter
  rw [h.sequencer]
  exact (h.setSequencer _).clockFrame _

/-- What a channel's registers do to its length counter depends on that counter alone. -/
theorem write (h : LooksLike a b) (addr : UInt16) (value : UInt8) :
    LooksLike (a.write addr value) (b.write addr value) := by
  have hpulse1 {p q : Pulse} (hp : p.length = q.length) :
      LooksLike { a with pulse1 := p } { b with pulse1 := q } :=
    ⟨hp, h.pulse2, h.triangle, h.noise, h.sequencer⟩
  have hpulse2 {p q : Pulse} (hp : p.length = q.length) :
      LooksLike { a with pulse2 := p } { b with pulse2 := q } :=
    ⟨h.pulse1, hp, h.triangle, h.noise, h.sequencer⟩
  have htriangle {t u : Triangle} (ht : t.length = u.length) :
      LooksLike { a with triangle := t } { b with triangle := u } :=
    ⟨h.pulse1, h.pulse2, ht, h.noise, h.sequencer⟩
  have hnoise {n o : Noise} (hn : n.length = o.length) :
      LooksLike { a with noise := n } { b with noise := o } :=
    ⟨h.pulse1, h.pulse2, h.triangle, hn, h.sequencer⟩
  -- of the registers of a channel two reach the length counter: its halt flag and its load
  unfold Apu.write
  split
  · exact hpulse1 (congrArg ({ · with halt := hasBits value 0x20 }) h.pulse1)
  · exact hpulse1 h.pulse1
  · exact hpulse1 h.pulse1
  · exact hpulse1 (congrArg (LengthCounter.load · value) h.pulse1)
  · exact hpulse2 (congrArg ({ · with halt := hasBits value 0x20 }) h.pulse2)
  · exact hpulse2 h.pulse2
  · exact hpulse2 h.pulse2
  · exact hpulse2 (congrArg (LengthCounter.load · value) h.pulse2)
  · exact htriangle (congrArg ({ · with halt := hasBits value 0x80 }) h.triangle)
  · exact htriangle h.triangle
  · exact htriangle (congrArg (LengthCounter.load · value) h.triangle)
  · exact hnoise (congrArg ({ · with halt := hasBits value 0x20 }) h.noise)
  · exact hnoise h.noise
  · exact hnoise (congrArg (LengthCounter.load · value) h.noise)
  · exact h.writeStatus value
  · exact h.writeFrameCounter value
  · exact h

end LooksLike

/-! ## Restoring -/

/-- Confining a unit cannot be seen if its sequencer is in range. -/
theorem looksLike_confine {a : Apu} (h : a.sequencer.InRange) : LooksLike a.confine a :=
  ⟨rfl, rfl, rfl, rfl, h.confine_eq⟩

/-- Nobody sees how the levels are mixed. -/
theorem looksLike_withMixing (a : Apu) (mixing : Mixing) : LooksLike (a.withMixing mixing) a := by
  unfold withMixing
  split
  · exact .refl a
  · exact ⟨rfl, rfl, rfl, rfl, rfl⟩

end Famicom.Sound.Apu
