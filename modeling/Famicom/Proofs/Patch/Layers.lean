import Famicom.Patch.Ledger
import Mathlib.Data.List.Induction
import Mathlib.Logic.Function.Basic

/-!
# Patches as layers

The active patches lie over the bytes of an image like layers, the latest on top.  A ledger is
linked when each patch remembers the byte that the layers below it show at its offset.  Then any
layer can be taken out: either a later one hides its place and inherits the remembered byte, or the
remembered byte is what the place has to show.

* `linked_inherit`, `overlay_inherit` — taking a layer out under another keeps the ledger linked
  and the bytes shown as they are.
* `linked_unhidden`, `overlay_unhidden` — taking a layer out that nothing hides uncovers the byte
  that it remembers.
* `overlay_eq_latest` — what is shown at an offset is the value of the latest layer there.
-/

namespace Famicom.Patch

/-- Bytes by their offsets. -/
abbrev Bytes := Nat → UInt8

/-- The bytes shown when patches lie over others. -/
def overlay : Bytes → List Applied → Bytes
  | under, [] => under
  | under, p :: rest => overlay (Function.update under p.offset p.code.value) rest

/-- Each patch remembers the byte that was shown at its offset without it and the later ones. -/
def Linked : Bytes → List Applied → Prop
  | _, [] => True
  | under, p :: rest =>
    p.replaced = under p.offset ∧ Linked (Function.update under p.offset p.code.value) rest

/-! ## Adding a layer -/

theorem overlay_append (under : Bytes) (earlier later : List Applied) :
    overlay under (earlier ++ later) = overlay (overlay under earlier) later := by
  induction earlier generalizing under with
  | nil => rfl
  | cons p rest ih => exact ih _

theorem linked_append (under : Bytes) (earlier later : List Applied) :
    Linked under (earlier ++ later) ↔
      Linked under earlier ∧ Linked (overlay under earlier) later := by
  induction earlier generalizing under with
  | nil => exact ⟨fun h => ⟨trivial, h⟩, And.right⟩
  | cons p rest ih =>
    simp only [List.cons_append, Linked, overlay, ih, and_assoc]

/-! ## Taking a layer out -/

/-- The later patch that inherits keeps the ledger linked without the removed one. -/
theorem linked_inherit {removed : Applied} {later inherited : List Applied} {under : Bytes}
    (hfound : Ledger.inherit? removed later = some inherited)
    (hreplaced : removed.replaced = under removed.offset)
    (hlinked : Linked (Function.update under removed.offset removed.code.value) later) :
    Linked under inherited := by
  induction later generalizing under inherited with
  | nil => cases hfound
  | cons p rest ih =>
    obtain ⟨hp, hrest⟩ := hlinked
    unfold Ledger.inherit? at hfound
    split at hfound
    case isTrue hsame =>
      cases hfound
      refine ⟨hreplaced.trans (congrArg under hsame.symm), ?_⟩
      rw [hsame, Function.update_idem] at hrest
      exact hsame.symm ▸ hrest
    case isFalse hother =>
      obtain ⟨tail, htail, rfl⟩ := Option.map_eq_some_iff.mp hfound
      rw [Function.update_of_ne hother] at hp
      rw [Function.update_comm (Ne.symm hother)] at hrest
      refine ⟨hp, ih htail ?_ hrest⟩
      rw [Function.update_of_ne (Ne.symm hother)]
      exact hreplaced

/-- A layer under another at the same offset is not seen. -/
theorem overlay_inherit {removed : Applied} {later inherited : List Applied} {under : Bytes}
    (hfound : Ledger.inherit? removed later = some inherited) :
    overlay under inherited =
      overlay (Function.update under removed.offset removed.code.value) later := by
  induction later generalizing under inherited with
  | nil => cases hfound
  | cons p rest ih =>
    unfold Ledger.inherit? at hfound
    split at hfound
    case isTrue hsame =>
      cases hfound
      simp only [overlay, hsame, Function.update_idem]
    case isFalse hother =>
      obtain ⟨tail, htail, rfl⟩ := Option.map_eq_some_iff.mp hfound
      simp only [overlay, ih htail, Function.update_comm hother]

/-- Without a later patch at its offset, a layer can be left out. -/
theorem linked_unhidden {removed : Applied} {later : List Applied} {under : Bytes}
    (hnone : Ledger.inherit? removed later = none)
    (hlinked : Linked (Function.update under removed.offset removed.code.value) later) :
    Linked under later := by
  induction later generalizing under with
  | nil => trivial
  | cons p rest ih =>
    obtain ⟨hp, hrest⟩ := hlinked
    unfold Ledger.inherit? at hnone
    split at hnone
    case isTrue hsame => cases hnone
    case isFalse hother =>
      rw [Function.update_of_ne hother] at hp
      rw [Function.update_comm (Ne.symm hother)] at hrest
      exact ⟨hp, ih (Option.map_eq_none_iff.mp hnone) hrest⟩

/-- Without a later patch at its offset, leaving a layer out uncovers what is under it. -/
theorem overlay_unhidden {removed : Applied} {later : List Applied} {under : Bytes}
    (hnone : Ledger.inherit? removed later = none) :
    overlay under later =
      Function.update (overlay (Function.update under removed.offset removed.code.value) later)
        removed.offset (under removed.offset) := by
  induction later generalizing under with
  | nil => simp only [overlay, Function.update_idem, Function.update_eq_self]
  | cons p rest ih =>
    unfold Ledger.inherit? at hnone
    split at hnone
    case isTrue hsame => cases hnone
    case isFalse hother =>
      have hunder : Function.update under p.offset p.code.value removed.offset =
          under removed.offset := Function.update_of_ne (Ne.symm hother) ..
      rw [overlay, overlay, ih (Option.map_eq_none_iff.mp hnone), hunder,
        Function.update_comm hother]

/-! ## What is shown -/

/-- The latest of the patches at an offset. -/
def latest? (offset : Nat) (l : List Applied) : Option Applied :=
  (l.filter (·.offset = offset)).getLast?

/-- What is shown at an offset is the value of the latest patch there. -/
theorem overlay_eq_latest (under : Bytes) (l : List Applied) (offset : Nat) :
    overlay under l offset = ((latest? offset l).map (·.code.value)).getD (under offset) := by
  induction l using List.reverseRecOn with
  | nil => rfl
  | append_singleton l p ih =>
    rw [overlay_append, overlay, overlay, latest?, List.filter_append]
    by_cases hp : p.offset = offset
    · simp [hp]
    · rw [Function.update_of_ne (Ne.symm hp), ih, latest?]
      simp [hp]

end Famicom.Patch
