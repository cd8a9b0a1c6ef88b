/-!
# Computations that respect a relation

A stateful computation respects a relation between states if related states give the same result
and related states again.  What the relation leaves out can then have no influence, and what it
says of both sides is kept.

* `Respects.bind`, `Respects.observe` — the composite of respectful parts is respectful.
* `respects_kept_iff` — keeping a property is respecting a relation.
-/

namespace Famicom

variable {S α β : Type} {rel : S → S → Prop}

/-- Related states give the same result and related states. -/
def Respects (rel : S → S → Prop) (x : StateM S α) : Prop :=
  ∀ s t, rel s t → (x s).1 = (x t).1 ∧ rel (x s).2 (x t).2

namespace Respects

theorem pure (a : α) : Respects rel (Pure.pure a : StateM S α) := fun _ _ h => ⟨rfl, h⟩

theorem bind {x : StateM S α} {f : α → StateM S β} (hx : Respects rel x)
    (hf : ∀ a, Respects rel (f a)) : Respects rel (x >>= f) := by
  intro s t h
  obtain ⟨hresult, hstate⟩ := hx s t h
  have hnext := hf (x s).1 _ _ hstate
  change (f (x s).1 (x s).2).1 = (f (x t).1 (x t).2).1 ∧
    rel (f (x s).1 (x s).2).2 (f (x t).1 (x t).2).2
  rw [← hresult]
  exact hnext

/-- A computation that looks at the state may look at what related states have in common. -/
theorem observe {f : S → StateM S α} (hsame : ∀ s t, rel s t → f s = f t)
    (hf : ∀ s, Respects rel (f s)) : Respects rel (get >>= f) := by
  intro s t h
  have hnext := hf s s t h
  change (f s s).1 = (f t t).1 ∧ rel (f s s).2 (f t t).2
  rw [← hsame s t h]
  exact hnext

theorem update {f : S → S} (hf : ∀ s t, rel s t → rel (f s) (f t)) :
    Respects rel (modify f : StateM S PUnit) := fun s t h => ⟨rfl, hf s t h⟩

theorem ite {c : Prop} [Decidable c] {x y : StateM S α} (hx : Respects rel x)
    (hy : Respects rel y) : Respects rel (if c then x else y) := by
  split
  · exact hx
  · exact hy

end Respects

/-! ## Properties as relations -/

/-- The same state, which has a property. -/
def Kept (Q : S → Prop) (s t : S) : Prop := s = t ∧ Q s

variable {Q : S → Prop}

/-- A computation keeps a property just if it respects the states that have it. -/
theorem respects_kept_iff {x : StateM S α} : Respects (Kept Q) x ↔ ∀ s, Q s → Q (x s).2 := by
  constructor
  · intro hx s h
    obtain ⟨-, -, hafter⟩ := hx s s ⟨rfl, h⟩
    exact hafter
  · rintro hx s t ⟨rfl, h⟩
    exact ⟨rfl, rfl, hx s h⟩

theorem Respects.keeps {x : StateM S α} (hx : Respects (Kept Q) x) {s : S} (h : Q s) :
    Q (x s).2 := respects_kept_iff.mp hx s h

/-- Where only a property has to be kept, a computation may look at the whole state. -/
theorem Respects.observe_kept {f : S → StateM S β} (hf : ∀ s, Respects (Kept Q) (f s)) :
    Respects (Kept Q) (get >>= f) := .observe (fun _ _ h => congrArg f h.1) hf

theorem Respects.update_kept {f : S → S} (hf : ∀ s, Q s → Q (f s)) :
    Respects (Kept Q) (modify f : StateM S PUnit) := respects_kept_iff.mpr hf

end Famicom
