import Famicom.Console.Step

/-!
# How a frame is divided

Valid settings divide a frame into sequencer steps and scanlines.  Both end at whole cycles, the
last of each with the frame.

* `Settings.valid_iff` — what valid settings promise to those that divide by them.
* `visibleScanlines_lt` — valid settings leave scanlines that are not visible.
* `boundary_le` — no part of a frame ends after it.
* `le_endedParts_iff` — the boundaries that a position has reached are the first ones.
* `clockingLines_all` — a frame clocks the board once for each visible scanline and once more.
-/

namespace Famicom

/-- The settings that can be chosen: every divisor is positive, a frame has a cycle for every
scanline, and some scanline is not visible. -/
theorem Settings.valid_iff {s : Settings} :
    s.Valid ↔ s.cyclesPerFrame ≠ 0 ∧
      (1 ≤ s.sequencerStepsPerFrame ∧ s.sequencerStepsPerFrame ≤ 5) ∧
      (s.scanlinesPerFrame ≠ 0 ∧ s.scanlinesPerFrame ≤ s.cyclesPerFrame) ∧
      s.visibleScanlines < s.scanlinesPerFrame ∧ s.routineCycleBudget ≠ 0 := by
  unfold Valid fault?
  grind

namespace Console

/-- Some scanlines are never visible. -/
theorem visibleScanlines_lt {s : Settings} (h : s.Valid) :
    s.visibleScanlines.toNat < s.scanlinesPerFrame.toNat := by
  obtain ⟨-, -, -, hvisible, -⟩ := Settings.valid_iff.mp h
  exact UInt32.lt_iff_toNat_lt.mp hvisible

/-- No part of a frame ends after the frame. -/
theorem boundary_le (cycles : Nat) {parts k : Nat} (hk : k ≤ parts) :
    boundary cycles parts k ≤ cycles :=
  Nat.div_le_of_le_mul (Nat.mul_le_mul_right cycles hk)

/-! ## Boundaries that have been reached -/

/-- How many of the ends of `parts` equal parts of a frame a position has reached. -/
def endedParts (cycles parts position : Nat) : Nat :=
  (List.range' 1 parts).countP fun k => boundary cycles parts k ≤ position

section

variable {cycles parts position k : Nat}

/-- Later parts end later, or at the same cycle. -/
theorem boundary_mono {j : Nat} (h : j ≤ k) : boundary cycles parts j ≤ boundary cycles parts k :=
  Nat.div_le_div_right (Nat.mul_le_mul_right cycles h)

theorem endedParts_le (cycles parts position : Nat) : endedParts cycles parts position ≤ parts :=
  Nat.le_trans List.countP_le_length (Nat.le_of_eq List.length_range')

/-- With a boundary, all those before it have been reached. -/
theorem le_endedParts (hle : k ≤ parts) (h : boundary cycles parts k ≤ position) :
    k ≤ endedParts cycles parts position := by
  have hfirst : (List.range' 1 k).countP (fun i => boundary cycles parts i ≤ position) = k := by
    refine (List.countP_eq_length.mpr fun i hi => decide_eq_true ?_).trans List.length_range'
    have hik : i < 1 + k := (List.mem_range'_1.mp hi).2
    exact Nat.le_trans (boundary_mono (by omega)) h
  calc
    k = (List.range' 1 k).countP (fun i => boundary cycles parts i ≤ position) := hfirst.symm
    _ ≤ endedParts cycles parts position :=
      (List.range'_sublist_right.mpr hle).countP_le

/-- Without a boundary, none after it has been reached. -/
theorem endedParts_lt (hpos : 1 ≤ k) (hle : k ≤ parts) (h : position < boundary cycles parts k) :
    endedParts cycles parts position < k := by
  have hsplit : List.range' 1 parts =
      List.range' 1 (k - 1) ++ List.range' (1 + (k - 1)) (parts - (k - 1)) := by
    rw [List.range'_append_1, Nat.add_sub_cancel' (by omega)]
  -- none of those from `k` on has been reached, so the others are all there can be
  have hlater : (List.range' (1 + (k - 1)) (parts - (k - 1))).countP
      (fun i => boundary cycles parts i ≤ position) = 0 := by
    refine List.countP_eq_zero.mpr fun i hi hreached => ?_
    have hki : 1 + (k - 1) ≤ i := (List.mem_range'_1.mp hi).1
    have hlate : position < boundary cycles parts i :=
      Nat.lt_of_lt_of_le h (boundary_mono (by omega))
    exact Nat.not_le.mpr hlate (of_decide_eq_true hreached)
  calc
    endedParts cycles parts position
        = (List.range' 1 (k - 1)).countP (fun i => boundary cycles parts i ≤ position) := by
          rw [endedParts, hsplit, List.countP_append, hlater, Nat.add_zero]
    _ ≤ k - 1 := Nat.le_trans List.countP_le_length (Nat.le_of_eq List.length_range')
    _ < k := by omega

/-- The boundaries come in order, so that those that have been reached are the first ones. -/
theorem le_endedParts_iff (hpos : 1 ≤ k) (hle : k ≤ parts) :
    k ≤ endedParts cycles parts position ↔ boundary cycles parts k ≤ position := by
  refine ⟨fun hcount => Nat.le_of_not_lt fun hlate => ?_, le_endedParts hle⟩
  exact Nat.not_lt.mpr hcount (endedParts_lt hpos hle hlate)

/-- A later position has reached no fewer boundaries. -/
theorem endedParts_mono {later : Nat} (h : position ≤ later) :
    endedParts cycles parts position ≤ endedParts cycles parts later :=
  List.countP_mono_left fun _ _ hreached =>
    decide_eq_true (Nat.le_trans (of_decide_eq_true hreached) h)

/-- At the end of the frame all boundaries have been reached. -/
theorem endedParts_of_le (h : cycles ≤ position) : endedParts cycles parts position = parts :=
  Nat.le_antisymm (endedParts_le ..)
    (le_endedParts (Nat.le_refl parts) (Nat.le_trans (boundary_le cycles (Nat.le_refl parts)) h))

end

/-! ## Scanlines that clock the board -/

/-- The scanlines among the first `lines` that clock the board. -/
def clockingLines (s : Settings) (lines : Nat) : Nat :=
  min lines s.visibleScanlines.toNat + if lines = s.scanlinesPerFrame.toNat then 1 else 0

section

variable {s : Settings} (hvisible : s.visibleScanlines.toNat < s.scanlinesPerFrame.toNat)

include hvisible

theorem clockingLines_zero : clockingLines s 0 = 0 := by
  have hne : 0 ≠ s.scanlinesPerFrame.toNat := Nat.ne_of_lt (Nat.zero_lt_of_lt hvisible)
  rw [clockingLines, if_neg hne, Nat.zero_min]

/-- One scanline more, below the end of the frame. -/
theorem clockingLines_succ {line : Nat} (hline : line < s.scanlinesPerFrame.toNat) :
    clockingLines s (line + 1) = clockingLines s line + if lineClocks s line then 1 else 0 := by
  have hne : line ≠ s.scanlinesPerFrame.toNat := Nat.ne_of_lt hline
  unfold clockingLines lineClocks
  rw [if_neg hne]
  by_cases hlow : line < s.visibleScanlines.toNat
  · have hnotLast : line + 1 ≠ s.scanlinesPerFrame.toNat := by omega
    simp only [hlow, hnotLast, decide_true, Bool.true_or, if_true, if_false]
    omega
  · by_cases hlast : line + 1 = s.scanlinesPerFrame.toNat
    · simp only [hlow, hlast, decide_false, Bool.false_or, beq_self_eq_true, if_true]
      omega
    · simp only [hlow, hlast, decide_false, Bool.false_or, beq_iff_eq, if_false]
      omega

/-- A whole frame clocks the board for the visible scanlines and once more. -/
theorem clockingLines_all :
    clockingLines s s.scanlinesPerFrame.toNat = s.visibleScanlines.toNat + 1 := by
  rw [clockingLines, if_pos rfl]
  omega

end

end Console

end Famicom
